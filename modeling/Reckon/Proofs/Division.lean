import Reckon.Evaluator
import Reckon.Proofs.Comparison
import Reckon.Proofs.Evaluation
import Reckon.Proofs.Values

/-!
Every division is protected. The divisions of an evaluation are listed in the order in which they
are made; what comes of dividing matters to the evaluation there and nowhere else.
-/
namespace Reckon

namespace Bits

open Float.Model Float.Model.UnpackedFloat

variable {n d ε : Float} {u v : UnpackedFloat}

/-- Not-a-number has an exponent of ones only and a mantissa that is not zero. -/
theorem unpack_packComponents_ne {s : Sign} {e : BitVec 11} {m : BitVec 52}
    (h : e = -1#11 → m = 0#52) :
    UnpackedFloat.unpack .binary64 (packComponents .binary64 s e m) ≠ .notANumber := by
  simp only [UnpackedFloat.unpack, unpackExponent_packComponents, unpackMantissa_packComponents]
  split
  · rename_i he
    rw [if_pos (h he)]
    nofun
  · split
    · split <;> nofun
    · nofun

/-- A number too large for a double is packed as an infinity, and not as not-a-number. -/
theorem unpack_pack_ne (hu : u ≠ .notANumber) :
    (Float.Model.pack u).unpack ≠ .notANumber := by
  change UnpackedFloat.unpack .binary64 (UnpackedFloat.pack .binary64 u) ≠ _
  cases u with
  | notANumber => exact absurd rfl hu
  | infinity s => exact unpack_packComponents_ne fun _ => rfl
  | zero s => exact unpack_packComponents_ne fun _ => rfl
  | finite s m e hm =>
    simp only [UnpackedFloat.pack]
    split
    · exact unpack_packComponents_ne fun _ => rfl
    · rename_i hfits
      split
      · refine unpack_packComponents_ne fun he => absurd ?_ hfits
        have hones := congrArg BitVec.toNat he
        simp at hones ⊢
        omega
      · exact unpack_packComponents_ne fun he => absurd he (by decide)

theorem div_ne (hn : u.isFinite) (hv : v ≠ .notANumber) (hz : ∀ s, v ≠ .zero s) :
    UnpackedFloat.div .binary64 u v ≠ .notANumber := by
  cases u with
  | notANumber | infinity => cases hn
  | zero s =>
    cases v with
    | notANumber => exact absurd rfl hv
    | zero t => exact absurd rfl (hz t)
    | infinity t | finite t => simp [UnpackedFloat.div]
  | finite s m e hm =>
    cases v with
    | notANumber => exact absurd rfl hv
    | zero t => exact absurd rfl (hz t)
    | infinity t => simp [UnpackedFloat.div]
    | finite t m' e' hm' =>
      simp only [UnpackedFloat.div, roundWithAccuracy]
      split <;> simp

theorem isNaN_div (hn : n.isFinite) (hd : d.isNaN = false) (hz : ¬ d == 0) :
    (n / d).isNaN = false := by
  rw [isNaN_eq_false_iff] at hd ⊢
  refine unpack_pack_ne (div_ne hn hd ?_)
  intro s hs
  apply hz
  rw [beq_iff, view, hs]
  rfl

theorem zero_lt_of_le_abs (hε : 0 < ε) (hd : ¬ d.abs < ε) (hnan : d.isNaN = false)
    (h : ¬ d < 0) : 0 < d := by
  obtain hlt | heq | hgt := lt_or_beq_or_lt hnan (isNaN_of_lt hε).1
  · exact absurd hlt h
  · exact absurd (abs_lt_of_beq_zero hε heq) hd
  · exact hgt

end Bits

section Divisor

open Bits

variable {ε d : Float}

theorem abs_guardDivisor (hε : 0 < ε) (hd : d.abs < ε) : (guardDivisor ε d).abs = ε := by
  rw [guardDivisor, if_pos hd]
  split
  · rw [Bits.abs_neg, abs_of_zero_lt hε]
  · exact abs_of_zero_lt hε

theorem sign_guardDivisor (hε : 0 < ε) (hd : d.abs < ε) :
    (guardDivisor ε d < 0 ↔ d < 0) ∧ (¬ d < 0 → 0 < guardDivisor ε d) := by
  rw [guardDivisor, if_pos hd]
  split
  · rename_i hneg
    exact ⟨iff_of_true (neg_lt_zero_iff.mpr hε) hneg, absurd hneg⟩
  · rename_i hneg
    exact ⟨iff_of_false (not_lt_of_lt hε) hneg, fun _ => hε⟩

/-- What `d'` is when it stands for the denominator `d`. -/
structure Guarded (ε d d' : Float) : Prop where
  isNaN_eq : d'.isNaN = d.isNaN
  le_abs : d.isNaN = false → ε ≤ d'.abs
  eq_of_le : ε ≤ d.abs → d' = d
  lt_zero_iff : d' < 0 ↔ d < 0
  zero_lt : d.isNaN = false → ¬ d < 0 → 0 < d'

theorem guarded (hε : 0 < ε) (d : Float) : Guarded ε d (guardDivisor ε d) := by
  obtain ⟨-, hnum⟩ := isNaN_of_lt hε
  by_cases hd : d.abs < ε
  · have habs := abs_guardDivisor hε hd
    have hsmall : ¬ ε ≤ d.abs := fun h => not_lt_of_le h hd
    obtain ⟨hneg, hpos⟩ := sign_guardDivisor hε hd
    exact {
      isNaN_eq := by rw [← isNaN_abs, habs, hnum, ← isNaN_abs, (isNaN_of_lt hd).1]
      le_abs := fun _ => by
        rw [habs]
        exact le_self hnum
      eq_of_le := fun h => absurd h hsmall
      lt_zero_iff := hneg
      zero_lt := fun _ => hpos }
  · rw [guardDivisor, if_neg hd]
    exact {
      isNaN_eq := rfl
      le_abs := fun hnan => le_of_not_lt (by rwa [isNaN_abs]) hnum hd
      eq_of_le := fun _ => rfl
      lt_zero_iff := .rfl
      zero_lt := zero_lt_of_le_abs hε hd }

variable {d' : Float}

theorem Guarded.not_lt (h : Guarded ε d d') : ¬ d'.abs < ε := by
  intro hlt
  have hnan : d'.isNaN = false := by
    rw [← isNaN_abs]
    exact (isNaN_of_lt hlt).1
  exact not_lt_of_le (h.le_abs (h.isNaN_eq ▸ hnan)) hlt

theorem Guarded.ne_zero (hε : 0 < ε) (h : Guarded ε d d') : ¬ d' == 0 :=
  fun hz => h.not_lt (abs_lt_of_beq_zero hε hz)

end Divisor

/-- Two numbers that meet in a division. -/
structure Division where
  numerator : Float
  denominator : Float
  deriving DecidableEq

namespace Division

def divisor (ε : Float) (d : Division) : Float :=
  guardDivisor ε d.denominator

def quotient (ε : Float) (d : Division) : Float :=
  d.numerator / d.divisor ε

/-- The divisor stands for the denominator, is neither a zero nor of a magnitude under `ε`, and
makes no not-a-number of a finite numerator. -/
structure Protected (ε : Float) (d : Division) : Prop where
  guarded : Guarded ε d.denominator (d.divisor ε)
  not_lt : ¬ (d.divisor ε).abs < ε
  ne_zero : ¬ d.divisor ε == 0
  isNaN_quotient : d.numerator.isFinite → d.denominator.isNaN = false →
    (d.quotient ε).isNaN = false

theorem protected_of_pos {ε : Float} (hε : 0 < ε) (d : Division) : d.Protected ε := by
  have hg := Reckon.guarded hε d.denominator
  exact {
    guarded := hg
    not_lt := hg.not_lt
    ne_zero := hg.ne_zero hε
    isNaN_quotient := fun hn hd => Bits.isNaN_div hn (hg.isNaN_eq.trans hd) (hg.ne_zero hε) }

end Division

/-- The divisions that an operator makes of two values. -/
def Operator.divisions : Operator → Value → Value → List Division
  | div, v, w => (v.pairs w).map fun p => ⟨p.1, p.2⟩
  | _, _, _ => []

/-- What an operator does if `quotient` is what comes of dividing. -/
def Operator.evalBy (quotient : Float → Float → Float) (ε : Float) :
    Operator → Float → Float → Float
  | div, x, y => quotient x (guardDivisor ε y)
  | o, x, y => o.eval ε x y

/-- The elements of a quotient are what comes of the divisions, in order. -/
theorem Operator.elements_div {ε : Float} {v w u : Value} (h : div.apply ε v w = .ok u) :
    u.elements = (div.divisions v w).map (Division.quotient ε) := by
  rw [Value.elements_zipWith h, divisions, List.map_map]
  rfl

theorem Operator.zipWith_evalBy {ε : Float} {quotient : Float → Float → Float} {o : Operator}
    {v w : Value}
    (h : ∀ d ∈ o.divisions v w, quotient d.numerator (d.divisor ε) = d.quotient ε) :
    v.zipWith (o.evalBy quotient ε) w = o.apply ε v w := by
  cases o with
  | add | sub | mul => rfl
  | div =>
    apply Value.zipWith_congr
    intro p hp
    exact h ⟨p.1, p.2⟩ (List.mem_map_of_mem hp)

namespace Expr

section
variable (ε : Float) (bindings : Bindings)

/-- The divisions of an evaluation, up to its error if it has one. -/
def divisions : Expr → List Division
  | const _ | var _ => []
  | call _ a => a.divisions
  | binary o l r =>
    l.divisions ++
      match l.eval ε bindings with
      | .error _ => []
      | .ok v =>
        r.divisions ++
          match r.eval ε bindings with
          | .error _ => []
          | .ok w => o.divisions v w

/-- The value of a tree if `quotient` is what comes of dividing. -/
def evalBy (quotient : Float → Float → Float) : Expr → Except Error Value
  | const x => .ok (.scalar x)
  | var name => (bindings.lookup name).elim (.error (.unboundVariable name)) .ok
  | call f a => do return f.apply (← a.evalBy quotient)
  | binary o l r => do
    let v ← l.evalBy quotient
    let w ← r.evalBy quotient
    v.zipWith (o.evalBy quotient ε) w

end

variable {ε : Float} {bindings : Bindings} {quotient : Float → Float → Float} {e : Expr}

theorem evalBy_eq_eval
    (h : ∀ d ∈ e.divisions ε bindings, quotient d.numerator (d.divisor ε) = d.quotient ε) :
    e.evalBy ε bindings quotient = e.eval ε bindings := by
  induction e with
  | const x => rfl
  | var name => rfl
  | call f a ih => rw [evalBy, eval, ih h]
  | binary o l r ihl ihr =>
    rw [divisions, List.forall_mem_append] at h
    obtain ⟨hl, h⟩ := h
    rw [evalBy, eval, ihl hl]
    cases hv : l.eval ε bindings with
    | error err => rfl
    | ok v =>
      rw [hv, List.forall_mem_append] at h
      obtain ⟨hr, h⟩ := h
      simp only [bind, Except.bind, ihr hr]
      cases hw : r.eval ε bindings with
      | error err => rfl
      | ok w =>
        rw [hw] at h
        exact Operator.zipWith_evalBy h

end Expr

namespace EvaluatorConfig

variable (c : EvaluatorConfig)

theorem epsilon_build : c.build.epsilon.isFinite ∧ 0 < c.build.epsilon := by
  by_cases h : c.hasValidEpsilon
  · rw [build, if_pos h]
    simpa [hasValidEpsilon] using h
  · rw [build, if_neg h]
    change defaultEpsilon.isFinite ∧ 0 < defaultEpsilon
    decide +kernel

/-- Whatever least divisor is asked for, the one in use is finite and positive, and every division
of every evaluation is protected by it. The divisions listed are those whose quotients the values are
made of, and all there are: whatever comes of dividing other numbers, the result is the same. -/
theorem build_protects :
    c.build.epsilon.isFinite ∧ 0 < c.build.epsilon ∧
    (c.epsilon.isFinite → 0 < c.epsilon → c.build.epsilon = c.epsilon) ∧
    (∀ v w u : Value, Operator.div.apply c.build.epsilon v w = .ok u →
      u.elements = (Operator.div.divisions v w).map (Division.quotient c.build.epsilon)) ∧
    ∀ (e : Expr) (bindings : Bindings),
      (∀ d ∈ e.divisions c.build.epsilon bindings, d.Protected c.build.epsilon) ∧
      ∀ quotient : Float → Float → Float,
        (∀ d ∈ e.divisions c.build.epsilon bindings,
          quotient d.numerator (d.divisor c.build.epsilon) = d.quotient c.build.epsilon) →
        e.evalBy c.build.epsilon bindings quotient = c.build.evaluate e bindings := by
  obtain ⟨hfinite, hpos⟩ := c.epsilon_build
  refine ⟨hfinite, hpos, ?_, fun v w u => Operator.elements_div, ?_⟩
  · intro hf hp
    have hvalid : c.hasValidEpsilon := by simp [hasValidEpsilon, hf, hp]
    rw [build, if_pos hvalid]
  · intro e bindings
    refine ⟨fun d _ => d.protected_of_pos hpos, ?_⟩
    intro quotient h
    rw [Expr.evalBy_eq_eval h, Evaluator.evaluate, Expr.evaluate_eq_eval]

end EvaluatorConfig

/-- The denominators of the inner division, which are replaced, come before two that stay. -/
example :
    let e : Expr := .binary .div (.const 3) (.binary .div (.var "x") (.var "y"))
    e.divisions 0.5 [("x", .scalar 1), ("y", .array [-0, -0.25])] =
      [⟨1, -0⟩, ⟨1, -0.25⟩, ⟨3, 2⟩, ⟨3, -2⟩] := by
  decide +kernel

end Reckon
