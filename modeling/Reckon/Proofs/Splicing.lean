import Reckon.Proofs.Acceptance
import Reckon.Proofs.Munch

/-!
Parsed texts in parentheses stand for their trees wherever they are put: what comes before an open
parenthesis is left alone until it closes.
-/
namespace Reckon

variable {g : Grammar} {o : Operator} {f : Func} {t : Token}
  {tokens us listing listing' : List Token}

namespace Postfix

open State

/-- Tokens with parentheses around them. -/
def grouped (tokens : List Token) : List Token :=
  .symbol .opening :: (tokens ++ [.symbol .closing])

namespace State

variable {s s' : State} {output result : List Token} {pending : List Pending}

/-- The state that has `base` below what it has itself. -/
def above (s base : State) : State :=
  ⟨s.output ++ base.output, s.pending ++ base.pending⟩

theorem closeGroup_above (h : closeGroup output pending = some s) (base : State) :
    closeGroup (output ++ base.output) (pending ++ .group :: base.pending) =
      some (s.above (base.hold .group)) := by
  fun_induction closeGroup output pending with
  | case1 => cases h
  | case2 output f pending =>
    obtain rfl := Option.some.inj h
    rfl
  | case3 output pending hne =>
    obtain rfl := Option.some.inj h
    cases pending with
    | nil => rfl
    | cons entry pending =>
      cases entry with
      | group | operator => rfl
      | function f => exact absurd rfl (hne f pending)
  | case4 output o pending ih => exact ih h
  | case5 output f pending ih => exact ih h

theorem release_above (g : Grammar) (o : Operator) (output : List Token) (pending : List Pending)
    (base : State) :
    release g o (output ++ base.output) (pending ++ .group :: base.pending) =
      (release g o output pending).above (base.hold .group) := by
  fun_induction release g o output pending with
  | case1 output f pending ih => exact ih
  | case2 output p pending hle ih =>
    rw [← ih]
    simp [release, hle]
  | case3 output p pending hlt =>
    simp only [release, List.cons_append, if_neg hlt]
    rfl
  | case4 output pending hf ho =>
    cases pending with
    | nil => rfl
    | cons entry pending =>
      cases entry with
      | group => rfl
      | operator p => exact absurd rfl (ho p pending)
      | function f => exact absurd rfl (hf f pending)

/-- A step that succeeds on its own succeeds in a group, and leaves alone what is outside. -/
theorem step_above (h : step g s t = some s') (base : State) :
    step g (s.above (base.hold .group)) t = some (s'.above (base.hold .group)) := by
  obtain ⟨ht, rfl⟩ | ⟨f, rfl, hf, rfl⟩ | ⟨rfl, rfl⟩ | ⟨rfl, hclose⟩ | ⟨o, rfl, rfl⟩ := step_cases h
  · exact step_operand ht _
  · exact step_function hf _
  · rfl
  · exact closeGroup_above hclose base
  · have hrelease := release_above g o s.output s.pending base
    exact congrArg (fun u => some (u.hold (.operator o))) hrelease

theorem foldlM_above (h : tokens.foldlM (step g) s = some s') (base : State) :
    tokens.foldlM (step g) (s.above (base.hold .group)) = some (s'.above (base.hold .group)) := by
  have hstart : ([] : List Token).foldlM (step g) (s.above (base.hold .group)) =
      some (s.above (base.hold .group)) := rfl
  refine foldlM_induction (P := fun u ts => ts.foldlM (step g) (s.above (base.hold .group)) =
    some (u.above (base.hold .group))) ?_ hstart h
  intro u ts t v hu ht
  simp [hu, step_above ht base]

/-- What would finish on its own is moved to the output by the parenthesis that closes it. -/
theorem closeGroup_of_finish (h : finish output pending = some result) (base : State) :
    closeGroup (output ++ base.output) (pending ++ .group :: base.pending) =
      closeGroup (result.reverse ++ base.output) (.group :: base.pending) := by
  fun_induction finish output pending with
  | case1 output =>
    obtain rfl := Option.some.inj h
    simp
  | case2 => cases h
  | case3 output o pending ih => exact ih h
  | case4 output f pending ih => exact ih h

/-- Tokens in parentheses go to the output in their own postfix order. -/
theorem foldlM_grouped (h : order? g tokens = some listing) (s : State) :
    (grouped tokens).foldlM (step g) s =
      closeGroup (listing.reverse ++ s.output) (.group :: s.pending) := by
  obtain ⟨u, hu, hf⟩ := Option.bind_eq_some_iff.mp h
  have hopen : step g s (.symbol .opening) = some (s.hold .group) := rfl
  have hrun : tokens.foldlM (step g) (s.hold .group) = some (u.above (s.hold .group)) :=
    foldlM_above hu s
  rw [← closeGroup_of_finish hf s, grouped, List.foldlM_cons, hopen, Option.bind_eq_bind,
    Option.bind_some, List.foldlM_append, hrun]
  simp [step, above, hold]

end State

theorem order?_grouped (h : order? g tokens = some listing) :
    order? g (grouped tokens) = some listing := by
  rw [order?, State.foldlM_grouped h]
  simp [closeGroup, finish]

theorem order?_call (hf : g.function? f.name = some f) (h : order? g tokens = some listing) :
    order? g (.word f.name :: grouped tokens) = some (listing ++ [.word f.name]) := by
  have hword : step g {} (.word f.name) = some ⟨[], [.function f]⟩ := by
    simp [step, hf, hold]
  have hrun : (grouped tokens).foldlM (step g) ⟨[], [.function f]⟩ =
      some ⟨.word f.name :: listing.reverse, []⟩ := by
    rw [State.foldlM_grouped h]
    simp [closeGroup]
  simp [order?, hword, hrun, finish]

theorem order?_operation (o : Operator) (h : order? g tokens = some listing)
    (h' : order? g us = some listing') :
    order? g (grouped tokens ++ .symbol (.operator o) :: grouped us) =
      some (listing ++ listing' ++ [.symbol (.operator o)]) := by
  have hleft : (grouped tokens).foldlM (step g) {} = some ⟨listing.reverse, []⟩ := by
    rw [State.foldlM_grouped h]
    simp [closeGroup]
  have hsymbol : step g ⟨listing.reverse, []⟩ (.symbol (.operator o)) =
      some ⟨listing.reverse, [.operator o]⟩ := rfl
  have hright : (grouped us).foldlM (step g) ⟨listing.reverse, [.operator o]⟩ =
      some ⟨listing'.reverse ++ listing.reverse, [.operator o]⟩ := by
    rw [State.foldlM_grouped h']
    rfl
  simp [order?, hleft, hsymbol, hright, finish]

end Postfix

namespace Grammar

open Lexer

variable {e e₁ e₂ : Expr} {text t₁ t₂ : String}

theorem parseTokens_of_order? (ho : Postfix.order? g tokens = some listing)
    (hm : listing.mapM g.node = .ok e.postorder) : g.parseTokens tokens = .ok e := by
  simp [parseTokens, postfixOrder, ho, build_eq_ok_iff.mpr hm]

theorem parse_of_spells (hs : Spells text.toList tokens) (hp : g.parseTokens tokens = .ok e) :
    g.parse text = .ok e :=
  (parse_eq_ok_iff (tokenize_of_spells hs)).mpr hp

/-- Whatever was accepted, in parentheses it is an operand like any other: it stands for its tree on
its own, on either side of any operator and after any function. -/
theorem parse_splice (h₁ : g.parse t₁ = .ok e₁) (h₂ : g.parse t₂ = .ok e₂) :
    g.parse ("(" ++ t₁ ++ ")") = .ok e₁ ∧
    (∀ o : Operator, g.parse ("(" ++ t₁ ++ ") " ++ o.symbol.toString ++ " (" ++ t₂ ++ ")") =
      .ok (.binary o e₁ e₂)) ∧
    ∀ f : Func, g.knows f → g.parse (f.name ++ "(" ++ t₁ ++ ")") = .ok (.call f e₁) := by
  obtain ⟨ts, ht, hp⟩ := parse_eq_ok h₁
  obtain ⟨us, hu, hp'⟩ := parse_eq_ok h₂
  obtain ⟨listing, ho, hm⟩ := parseTokens_eq_ok hp
  obtain ⟨listing', ho', hm'⟩ := parseTokens_eq_ok hp'
  have hs := spells_group (spells_of_tokenize ht)
  have hs' := spells_group (spells_of_tokenize hu)
  refine ⟨?_, ?_, ?_⟩
  · have hgroup : g.parseTokens (Postfix.grouped ts) = .ok e₁ :=
      parseTokens_of_order? (Postfix.order?_grouped ho) hm
    exact parse_of_spells (by simpa [Postfix.grouped] using hs) hgroup
  · intro o
    have hbinary : g.parseTokens
        (Postfix.grouped ts ++ .symbol (.operator o) :: Postfix.grouped us) =
          .ok (.binary o e₁ e₂) := by
      refine parseTokens_of_order? (Postfix.order?_operation o ho ho') ?_
      simp [List.mapM_append, hm, hm', node, Expr.postorder]
    exact parse_of_spells (by simpa [Postfix.grouped] using spells_operation o hs hs') hbinary
  · intro f hk
    have hf : g.function? f.name = some f := function?_eq_some.mpr ⟨rfl, hk⟩
    have hcall : g.parseTokens (.word f.name :: Postfix.grouped ts) = .ok (.call f e₁) := by
      refine parseTokens_of_order? (Postfix.order?_call hf ho) ?_
      simp [List.mapM_append, hm, node, hf, Expr.postorder]
    have hs := spells_call f (spells_of_tokenize ht)
    exact parse_of_spells (by simpa [Postfix.grouped] using hs) hcall

/-- Operators and functions after their operands, where products bind more weakly than sums. -/
theorem parse_splice_odd :
    let g := ({} : Grammar).withPrecedence .mul 1
    let e₁ : Expr := .binary .add (.const 1) (.const 2)
    let e₂ : Expr := .call .sin (.var "x")
    g.parse "1 2+" = .ok e₁ ∧ g.parse "x sin" = .ok e₂ ∧
      g.parse "(1 2+)" = .ok e₁ ∧ g.parse "(1 2+) * (x sin)" = .ok (.binary .mul e₁ e₂) ∧
      g.knows .sqrt ∧ g.parse "sqrt(1 2+)" = .ok (.call .sqrt e₁) := by
  intro g e₁ e₂
  have h₁ : g.parse "1 2+" = .ok e₁ := by decide +kernel
  have h₂ : g.parse "x sin" = .ok e₂ := by decide +kernel
  obtain ⟨hgroup, hbinary, hcall⟩ := parse_splice h₁ h₂
  exact ⟨h₁, h₂, hgroup, hbinary .mul, rfl, hcall .sqrt rfl⟩

end Grammar

end Reckon
