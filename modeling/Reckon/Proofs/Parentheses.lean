import Mathlib.Tactic.Common
import Reckon.Proofs.Conservation

/-! The translation to postfix order has a result exactly when the parentheses match. -/
namespace Reckon.Postfix

variable {g : Grammar} {n : Nat} {t : Token} {tokens : List Token}

/-- How many parentheses are open after one more token; none if it closes one that is not open. -/
def nest : Nat → Token → Option Nat
  | n, .symbol .opening => some (n + 1)
  | 0, .symbol .closing => none
  | n + 1, .symbol .closing => some n
  | n, _ => some n

/-- The parentheses match if `n` of them are open already. -/
def Matched (n : Nat) (tokens : List Token) : Prop :=
  tokens.foldlM nest n = some 0

@[simp] theorem matched_nil : Matched n [] ↔ n = 0 := by
  simp [Matched]

theorem matched_cons : Matched n (t :: tokens) ↔ ∃ m, nest n t = some m ∧ Matched m tokens := by
  simp [Matched, Option.bind_eq_some_iff]

namespace State

/-- The number of parentheses that wait to be closed. -/
def groups (s : State) : Nat :=
  s.pending.count .group

theorem groups_closeGroup (output : List Token) (pending : List Pending) :
    (closeGroup output pending).map groups =
      nest (pending.count .group) (.symbol .closing) := by
  fun_induction closeGroup output pending with
  | case1 => rfl
  | case2 output f pending => simp [groups, nest]
  | case3 output pending => simp [groups, nest]
  | case4 output o pending ih => simpa using ih
  | case5 output f pending ih => simpa using ih

theorem groups_release (g : Grammar) (o : Operator) (output : List Token) (pending : List Pending) :
    (release g o output pending).groups = pending.count .group := by
  fun_induction release g o output pending with
  | case1 output f pending ih => simpa using ih
  | case2 output p pending hle ih => simpa using ih
  | case3 output p pending hlt => rfl
  | case4 output pending => rfl

/-- Only parentheses change what waits to be closed. -/
theorem groups_step (s : State) (t : Token) : (step g s t).map groups = nest s.groups t := by
  cases t with
  | number text => rfl
  | word text => cases hf : g.function? text <;> simp [step, hf, nest, groups, hold, emit]
  | symbol symbol =>
    rcases symbol with _ | _ | o
    · simp [step, nest, groups, hold]
    · exact groups_closeGroup s.output s.pending
    · have hr := groups_release g o s.output s.pending
      simpa [step, nest, groups, hold] using hr

theorem groups_foldlM (tokens : List Token) (s : State) :
    (tokens.foldlM (step g) s).map groups = tokens.foldlM nest s.groups := by
  induction tokens generalizing s with
  | nil => rfl
  | cons t tokens ih =>
    simp only [List.foldlM_cons, ← groups_step (g := g) s t]
    cases step g s t with
    | none => rfl
    | some s => exact ih s

theorem isSome_finish (output : List Token) (pending : List Pending) :
    (finish output pending).isSome ↔ pending.count .group = 0 := by
  fun_induction finish output pending with
  | case1 output => simp
  | case2 => simp
  | case3 output o pending ih => simpa using ih
  | case4 output f pending ih => simpa using ih

end State

theorem isSome_order? : (order? g tokens).isSome ↔ Matched 0 tokens := by
  have hg := State.groups_foldlM (g := g) tokens {}
  rw [Matched, ← show State.groups {} = 0 from rfl, ← hg]
  cases hs : tokens.foldlM (State.step g) {} with
  | none => simp [order?, hs]
  | some s => simpa [order?, hs, State.groups] using State.isSome_finish s.output s.pending

end Reckon.Postfix
