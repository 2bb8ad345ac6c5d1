import Reckon.Proofs.Comparison
import Reckon.Proofs.Evaluation
import Mathlib.Data.List.Forall2

/-!
No result depends on the sign of a zero: from numbers that are alike come numbers that are alike,
through every operator and function, and so through every tree.
-/
namespace Reckon

/-- Numbers that compare equal, or are both not-a-number. -/
def Alike (x y : Float) : Prop :=
  x == y ∨ x.isNaN ∧ y.isNaN

theorem alike_refl (x : Float) : Alike x x := by
  cases h : x.isNaN with
  | true => exact .inr ⟨h, h⟩
  | false => exact .inl (Bits.beq_iff.mpr (Bits.compare_self (Bits.isNaN_eq_false_iff.mp h)))

theorem Alike.eq_or_zero {x y : Float} (h : Alike x y) : x = y ∨ x == 0 ∧ y == 0 := by
  obtain h | ⟨hx, hy⟩ := h
  · obtain ⟨-, -, rfl | ⟨rfl, rfl⟩ | ⟨rfl, rfl⟩⟩ := Float.beq_iff_ne_nan_and_eq.mp h
    · exact .inl rfl
    · exact .inr ⟨by decide, by decide⟩
    · exact .inr ⟨by decide, by decide⟩
  · have hnan : Bits.view x = Bits.view y :=
      (Float.Model.UnpackedFloat.isNaN_iff.mp hx).trans
        (Float.Model.UnpackedFloat.isNaN_iff.mp hy).symm
    exact .inl (Bits.eq_of_unpack_eq hnan)

namespace Bits

open Float.Model Float.Model.UnpackedFloat

variable {u u' v v' w : UnpackedFloat}

/-- The same, but for the sign of a zero. -/
inductive ZeroAlike : UnpackedFloat → UnpackedFloat → Prop where
  | refl (u : UnpackedFloat) : ZeroAlike u u
  | zeros (s t : Sign) : ZeroAlike (.zero s) (.zero t)

namespace ZeroAlike

theorem trans (h : ZeroAlike u v) (h' : ZeroAlike v w) : ZeroAlike u w := by
  cases h with
  | refl => exact h'
  | zeros s t =>
    cases h' with
    | refl => exact .zeros s t
    | zeros t r => exact .zeros s r

/-- The operands of an operation may be taken one at a time. -/
theorem congr₂ {f : UnpackedFloat → UnpackedFloat → UnpackedFloat}
    (hl : ∀ s t v, ZeroAlike (f (.zero s) v) (f (.zero t) v))
    (hr : ∀ u s t, ZeroAlike (f u (.zero s)) (f u (.zero t)))
    (hu : ZeroAlike u u') (hv : ZeroAlike v v') : ZeroAlike (f u v) (f u' v') := by
  have hleft : ZeroAlike (f u v) (f u' v) := by
    cases hu with
    | refl => exact .refl _
    | zeros s t => exact hl s t v
  have hright : ZeroAlike (f u' v) (f u' v') := by
    cases hv with
    | refl => exact .refl _
    | zeros s t => exact hr u' s t
  exact hleft.trans hright

theorem add (hu : ZeroAlike u u') (hv : ZeroAlike v v') :
    ZeroAlike (.add .binary64 u v) (.add .binary64 u' v') := by
  refine congr₂ ?_ ?_ hu hv
  · intro s t v
    rcases v with _ | _ | (_ | _) | _ <;> cases s <;> cases t <;> constructor
  · intro u s t
    rcases u with _ | _ | (_ | _) | _ <;> cases s <;> cases t <;> constructor

theorem sub (hu : ZeroAlike u u') (hv : ZeroAlike v v') :
    ZeroAlike (.sub .binary64 u v) (.sub .binary64 u' v') := by
  refine congr₂ ?_ ?_ hu hv
  · intro s t v
    rcases v with _ | _ | (_ | _) | _ <;> cases s <;> cases t <;> constructor
  · intro u s t
    rcases u with _ | _ | (_ | _) | _ <;> cases s <;> cases t <;> constructor

theorem mul (hu : ZeroAlike u u') (hv : ZeroAlike v v') :
    ZeroAlike (.mul .binary64 u v) (.mul .binary64 u' v') := by
  refine congr₂ ?_ ?_ hu hv
  · intro s t v
    cases v <;> constructor
  · intro u s t
    cases u <;> constructor

/-- Of the two operands of a division, the divisor has to stay. -/
theorem div (hu : ZeroAlike u u') (v : UnpackedFloat) :
    ZeroAlike (.div .binary64 u v) (.div .binary64 u' v) := by
  cases hu with
  | refl => exact .refl _
  | zeros s t => cases v <;> constructor

theorem sqrt (hu : ZeroAlike u u') :
    ZeroAlike (.sqrt .binary64 u) (.sqrt .binary64 u') := by
  cases hu with
  | refl => exact .refl _
  | zeros s t => exact .zeros s t

end ZeroAlike

theorem zeroAlike_of_alike {x y : Float} (h : Alike x y) : ZeroAlike (view x) (view y) := by
  obtain rfl | ⟨hx, hy⟩ := h.eq_or_zero
  · exact .refl _
  · obtain ⟨s, hs⟩ := exists_view_eq_zero hx
    obtain ⟨t, ht⟩ := exists_view_eq_zero hy
    rw [hs, ht]
    exact .zeros s t

theorem alike_pack (h : ZeroAlike u v) : Alike (.ofModel (.pack u)) (.ofModel (.pack v)) := by
  cases h with
  | refl => exact alike_refl _
  | zeros s t => exact .inl (by cases s <;> cases t <;> decide)

end Bits

section Numbers

open Bits

variable {x x' y y' ε : Float}

theorem Alike.add (hx : Alike x x') (hy : Alike y y') : Alike (x + y) (x' + y') :=
  alike_pack ((zeroAlike_of_alike hx).add (zeroAlike_of_alike hy))

theorem Alike.sub (hx : Alike x x') (hy : Alike y y') : Alike (x - y) (x' - y') :=
  alike_pack ((zeroAlike_of_alike hx).sub (zeroAlike_of_alike hy))

theorem Alike.mul (hx : Alike x x') (hy : Alike y y') : Alike (x * y) (x' * y') :=
  alike_pack ((zeroAlike_of_alike hx).mul (zeroAlike_of_alike hy))

theorem Alike.div (hx : Alike x x') (y : Float) : Alike (x / y) (x' / y) :=
  alike_pack ((zeroAlike_of_alike hx).div (view y))

theorem Alike.sqrt (hx : Alike x x') : Alike x.sqrt x'.sqrt :=
  alike_pack (zeroAlike_of_alike hx).sqrt

/-- A zero is replaced by the least divisor, whatever its sign. -/
theorem guardDivisor_of_zero (hε : 0 < ε) (hx : x == 0) : guardDivisor ε x = ε := by
  rw [guardDivisor, if_pos (abs_lt_of_beq_zero hε hx), if_neg (not_lt_of_beq hx)]

theorem Alike.guardDivisor_eq (hε : 0 < ε) (h : Alike x y) :
    guardDivisor ε x = guardDivisor ε y := by
  obtain rfl | ⟨hx, hy⟩ := h.eq_or_zero
  · rfl
  · rw [guardDivisor_of_zero hε hx, guardDivisor_of_zero hε hy]

theorem Operator.eval_alike (hε : 0 < ε) (o : Operator) (hx : Alike x x') (hy : Alike y y') :
    Alike (o.eval ε x y) (o.eval ε x' y') := by
  cases o with
  | add => exact hx.add hy
  | sub => exact hx.sub hy
  | mul => exact hx.mul hy
  | div =>
    simp only [eval, divide, hy.guardDivisor_eq hε]
    exact hx.div _

theorem Func.eval_alike (f : Func) (h : Alike x y) : Alike (f.eval x) (f.eval y) := by
  obtain rfl | ⟨hx, hy⟩ := h.eq_or_zero
  · exact alike_refl _
  · cases f with
    | sqrt => simpa [eval, not_lt_of_beq hx, not_lt_of_beq hy] using h.sqrt
    | sin => simpa [eval, hx, hy] using h
    | cos => simpa [eval, hx, hy] using alike_refl 1

end Numbers

section Columns

variable {f g : Float → Float} {k k' : Float → Float → Float} {xs xs' ys ys' : List Float}

theorem forall₂_map (hf : ∀ x y, Alike x y → Alike (f x) (g y)) (h : List.Forall₂ Alike xs ys) :
    List.Forall₂ Alike (xs.map f) (ys.map g) := by
  rw [List.forall₂_map_left_iff, List.forall₂_map_right_iff]
  exact h.imp hf

theorem forall₂_zipWith
    (hk : ∀ x x' y y', Alike x x' → Alike y y' → Alike (k x y) (k' x' y'))
    (hx : List.Forall₂ Alike xs xs') (hy : List.Forall₂ Alike ys ys') :
    List.Forall₂ Alike (xs.zipWith k ys) (xs'.zipWith k' ys') := by
  induction hx generalizing ys ys' with
  | nil => simp
  | cons hx _ ih =>
    cases hy with
    | nil => simp
    | cons hy hys => exact .cons (hk _ _ _ _ hx hy) (ih hys)

end Columns

/-- The same shape, and numbers that are alike. -/
inductive Value.Alike : Value → Value → Prop where
  | scalar {x y : Float} (h : Reckon.Alike x y) : Alike (scalar x) (scalar y)
  | array {xs ys : List Float} (h : List.Forall₂ Reckon.Alike xs ys) : Alike (array xs) (array ys)

/-- The same error, or values that are alike. -/
inductive AlikeResults : Except Error Value → Except Error Value → Prop where
  | ok {v w : Value} (h : v.Alike w) : AlikeResults (.ok v) (.ok w)
  | error (err : Error) : AlikeResults (.error err) (.error err)

theorem AlikeResults.mismatch {m m' n n' : Nat} (hm : m = m') (hn : n = n') :
    AlikeResults (.error (.shapeMismatch m n)) (.error (.shapeMismatch m' n')) := by
  subst hm hn
  exact .error _

theorem AlikeResults.bind {a b : Except Error Value} {k k' : Value → Except Error Value}
    (h : AlikeResults a b) (hk : ∀ v w, v.Alike w → AlikeResults (k v) (k' w)) :
    AlikeResults (a >>= k) (b >>= k') := by
  cases h with
  | ok h => exact hk _ _ h
  | error err => exact .error err

namespace Value

variable {f g : Float → Float} {k k' : Float → Float → Float} {l l' r r' v w : Value}

theorem Alike.map (hf : ∀ x y, Reckon.Alike x y → Reckon.Alike (f x) (g y)) (h : v.Alike w) :
    (v.map f).Alike (w.map g) := by
  cases h with
  | scalar h => exact .scalar (hf _ _ h)
  | array h => exact .array (forall₂_map hf h)

theorem Alike.zipWith
    (hk : ∀ x x' y y', Reckon.Alike x x' → Reckon.Alike y y' → Reckon.Alike (k x y) (k' x' y'))
    (hl : l.Alike l') (hr : r.Alike r') : AlikeResults (l.zipWith k r) (l'.zipWith k' r') := by
  cases hl with
  | scalar hx =>
    cases hr with
    | scalar hy => exact .ok (.scalar (hk _ _ _ _ hx hy))
    | array hys => exact .ok (.array (forall₂_map (fun _ _ hy => hk _ _ _ _ hx hy) hys))
  | array hxs =>
    cases hr with
    | scalar hy => exact .ok (.array (forall₂_map (fun _ _ hx => hk _ _ _ _ hx hy) hxs))
    | array hys =>
      have hm := hxs.length_eq
      have hn := hys.length_eq
      simp only [Value.zipWith, ← hm, ← hn]
      split
      · exact .ok (.array (forall₂_zipWith hk hxs hys))
      · -- A column of one stretches; any other two do not go together.
        rcases hxs with _ | ⟨hx, _ | ⟨hx', hxs⟩⟩
        · rcases hys with _ | ⟨hy, _ | ⟨hy', hys⟩⟩
          · exact .error _
          · exact .ok (.array .nil)
          · exact .mismatch hm hn
        · exact .ok (.array (forall₂_map (fun _ _ hy => hk _ _ _ _ hx hy) hys))
        · rcases hys with _ | ⟨hy, _ | ⟨hy', hys⟩⟩
          · exact .mismatch hm hn
          · have hxs := hxs.cons hx' |>.cons hx
            exact .ok (.array (forall₂_map (fun _ _ hx => hk _ _ _ _ hx hy) hxs))
          · exact .mismatch hm hn

end Value

/-- The same names, bound to values that are alike. -/
def Bindings.Alike (bindings bindings' : Bindings) : Prop :=
  ∀ name, Option.Rel Value.Alike (bindings.lookup name) (bindings'.lookup name)

theorem Bindings.Alike.cons {bindings bindings' : Bindings} {v w : Value} (name : String)
    (hv : v.Alike w) (h : bindings.Alike bindings') :
    Bindings.Alike ((name, v) :: bindings) ((name, w) :: bindings') := by
  intro n
  cases hn : n == name with
  | true => simpa [List.lookup_cons, hn] using Option.Rel.some hv
  | false => simpa [List.lookup_cons, hn] using h n

namespace Expr

/-- The same nodes in the same places, but for constants that are alike. -/
inductive Alike : Expr → Expr → Prop where
  | const {x y : Float} (h : Reckon.Alike x y) : Alike (const x) (const y)
  | var (name : String) : Alike (var name) (var name)
  | call {a b : Expr} (f : Func) (h : Alike a b) : Alike (call f a) (call f b)
  | binary {l l' r r' : Expr} (o : Operator) (hl : Alike l l') (hr : Alike r r') :
    Alike (binary o l r) (binary o l' r')

variable {ε : Float} {bindings bindings' : Bindings} {e e' : Expr}

theorem alike_of_same (h : e.same e') : e.Alike e' := by
  induction e generalizing e' with
  | const x =>
    cases e' with
    | const y => exact .const (.inl h)
    | _ => cases h
  | var name =>
    cases e' with
    | var name' =>
      obtain rfl : name = name' := by simpa [same] using h
      exact .var name
    | _ => cases h
  | call f a ih =>
    cases e' with
    | call g b =>
      obtain ⟨rfl, hab⟩ : f = g ∧ a.same b := by simpa [same] using h
      exact .call f (ih hab)
    | _ => cases h
  | binary o l r ihl ihr =>
    cases e' with
    | binary p l' r' =>
      obtain ⟨rfl, hl, hr⟩ : o = p ∧ l.same l' ∧ r.same r' := by simpa [same, and_assoc] using h
      exact .binary o (ihl hl) (ihr hr)
    | _ => cases h

theorem eval_alike (hε : 0 < ε) (hb : bindings.Alike bindings') (he : e.Alike e') :
    AlikeResults (e.eval ε bindings) (e'.eval ε bindings') := by
  induction he with
  | const h => exact .ok (.scalar h)
  | var name =>
    have h := hb name
    unfold eval
    generalize bindings.lookup name = v, bindings'.lookup name = w at h
    cases h with
    | none => exact .error _
    | some h => exact .ok h
  | call f _ ih =>
    refine ih.bind ?_
    intro v w h
    exact .ok (h.map fun _ _ => f.eval_alike)
  | binary o _ _ ihl ihr =>
    refine ihl.bind ?_
    intro v v' hv
    refine ihr.bind ?_
    intro w w' hw
    exact hv.zipWith (fun _ _ _ _ => o.eval_alike hε) hw

/-- Signs of zeros, in a tree or in what its variables stand for, change no error, and of a value at
most the signs of its zeros. -/
theorem evaluate_alike (hε : 0 < ε) (hb : bindings.Alike bindings') :
    (∀ e e' : Expr, e.Alike e' →
      AlikeResults (e.evaluate ε bindings) (e'.evaluate ε bindings')) ∧
    ∀ e e' : Expr, e.same e' → e.Alike e' := by
  refine ⟨?_, fun _ _ => alike_of_same⟩
  intro e e' he
  rw [evaluate_eq_eval, evaluate_eq_eval]
  exact eval_alike hε hb he

/-- A zero times a column with a zero in it, as the divisor. -/
theorem evaluate_alike_divisor :
    let e (z : Float) : Expr := .binary .div (.var "x") (.binary .mul (.const z) (.var "y"))
    let bindings (z : Float) : Bindings := [("x", .scalar 1), ("y", .array [z, 2])]
    (e 0).same (e (-0)) ∧ (bindings 0).Alike (bindings (-0)) ∧
      AlikeResults ((e 0).evaluate 0.5 (bindings 0)) ((e (-0)).evaluate 0.5 (bindings (-0))) := by
  intro e bindings
  have hzero : Reckon.Alike 0 (-0) := .inl (by decide)
  have hy : Value.Alike (.array [0, 2]) (.array [-0, 2]) :=
    .array (.cons hzero (.cons (alike_refl 2) .nil))
  have hb : (bindings 0).Alike (bindings (-0)) :=
    .cons "x" (.scalar (alike_refl 1)) (.cons "y" hy fun _ => .none)
  have hsame : (e 0).same (e (-0)) := by decide +kernel
  obtain ⟨hresults, halike⟩ := evaluate_alike (by decide +kernel : (0 : Float) < 0.5) hb
  exact ⟨hsame, hb, hresults _ _ (halike _ _ hsame)⟩

end Expr

end Reckon
