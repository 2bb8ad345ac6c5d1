import Mathlib.Data.List.Perm.Basic
import Reckon.Postfix
import Reckon.Proofs.Outcome

/-!
The translation to postfix order keeps its tokens: at any time the output and what waits are, in
some order, the tokens so far but for the parentheses.
-/
namespace Reckon

/-- Whether the token is an operand on its own: a number, or a name of no function. -/
def Grammar.isOperand (g : Grammar) : Token → Bool
  | .number _ => true
  | .word text => !g.isFunction text
  | .symbol _ => false

theorem Grammar.isOperand_word {g : Grammar} {text : String} :
    g.isOperand (.word text) ↔ g.function? text = none := by
  simp [isOperand, isFunction]

namespace Postfix

variable {g : Grammar} {o : Operator} {s s' : State} {t : Token}
  {ts tokens output result moved : List Token} {pending : List Pending}

/-- The token that puts an entry among what waits, and that the entry goes to the output as. -/
def Pending.token? : Pending → Option Token
  | group => none
  | operator o => some (.symbol (.operator o))
  | function f => some (.word f.name)

def isParenthesis : Token → Bool
  | .symbol .opening | .symbol .closing => true
  | _ => false

/-- The tokens that wait, the latest first. -/
def State.waiting (s : State) : List Token :=
  s.pending.filterMap Pending.token?

/-- All tokens in the state, whether they wait or not. -/
def State.held (s : State) : List Token :=
  s.output ++ s.pending.filterMap Pending.token?

namespace State

theorem step_operand (h : g.isOperand t) (s : State) : step g s t = some (s.emit t) := by
  cases t with
  | number text => rfl
  | word text => simp [step, Grammar.isOperand_word.mp h]
  | symbol symbol => cases h

theorem step_function {f : Func} (h : g.function? f.name = some f) (s : State) :
    step g s (.word f.name) = some (s.hold (.function f)) := by
  simp [step, h]

/-- All that a step can do. -/
theorem step_cases (h : step g s t = some s') :
    (g.isOperand t ∧ s' = s.emit t) ∨
    (∃ f, t = .word f.name ∧ g.function? f.name = some f ∧ s' = s.hold (.function f)) ∨
    (t = .symbol .opening ∧ s' = s.hold .group) ∨
    (t = .symbol .closing ∧ closeGroup s.output s.pending = some s') ∨
    ∃ o, t = .symbol (.operator o) ∧ s' = (release g o s.output s.pending).hold (.operator o) := by
  cases t with
  | number text => exact .inl ⟨rfl, (Option.some.inj h).symm⟩
  | word text =>
    cases hf : g.function? text with
    | none =>
      have hoperand : g.isOperand (.word text) := Grammar.isOperand_word.mpr hf
      rw [step_operand hoperand] at h
      exact .inl ⟨hoperand, (Option.some.inj h).symm⟩
    | some f =>
      obtain ⟨rfl, -⟩ := Grammar.function?_eq_some.mp hf
      rw [step_function hf] at h
      exact .inr (.inl ⟨f, rfl, hf, (Option.some.inj h).symm⟩)
  | symbol symbol =>
    rcases symbol with _ | _ | o
    · exact .inr (.inr (.inl ⟨rfl, (Option.some.inj h).symm⟩))
    · exact .inr (.inr (.inr (.inl ⟨rfl, h⟩)))
    · exact .inr (.inr (.inr (.inr ⟨o, rfl, (Option.some.inj h).symm⟩)))

/-- What goes to the output is the first of what waits, in its order. -/
theorem exists_moved_closeGroup (h : closeGroup output pending = some s) :
    ∃ moved, s.output = moved.reverse ++ output ∧
      (State.mk output pending).waiting = moved ++ s.waiting := by
  fun_induction closeGroup output pending with
  | case1 => cases h
  | case2 output f pending =>
    obtain rfl := Option.some.inj h
    exact ⟨[.word f.name], rfl, rfl⟩
  | case3 output pending =>
    obtain rfl := Option.some.inj h
    exact ⟨[], rfl, rfl⟩
  | case4 output o pending ih =>
    obtain ⟨moved, ho, hw⟩ := ih h
    exact ⟨.symbol (.operator o) :: moved, by simp [ho], congrArg (List.cons _) hw⟩
  | case5 output f pending ih =>
    obtain ⟨moved, ho, hw⟩ := ih h
    exact ⟨.word f.name :: moved, by simp [ho], congrArg (List.cons _) hw⟩

theorem exists_moved_release (g : Grammar) (o : Operator) (output : List Token)
    (pending : List Pending) :
    ∃ moved, (release g o output pending).output = moved.reverse ++ output ∧
      (State.mk output pending).waiting = moved ++ (release g o output pending).waiting := by
  fun_induction release g o output pending with
  | case1 output f pending ih =>
    obtain ⟨moved, ho, hw⟩ := ih
    exact ⟨.word f.name :: moved, by simp [ho], congrArg (List.cons _) hw⟩
  | case2 output p pending hle ih =>
    obtain ⟨moved, ho, hw⟩ := ih
    exact ⟨.symbol (.operator p) :: moved, by simp [ho], congrArg (List.cons _) hw⟩
  | case3 output p pending hlt => exact ⟨[], rfl, rfl⟩
  | case4 output pending => exact ⟨[], rfl, rfl⟩

theorem eq_of_finish (h : finish output pending = some result) :
    result = output.reverse ++ (State.mk output pending).waiting := by
  fun_induction finish output pending with
  | case1 output =>
    obtain rfl := Option.some.inj h
    simp [waiting]
  | case2 => cases h
  | case3 output o pending ih => simp [ih h, waiting, Pending.token?]
  | case4 output f pending ih => simp [ih h, waiting, Pending.token?]

theorem held_of_moved (ho : s'.output = moved.reverse ++ s.output)
    (hw : s.waiting = moved ++ s'.waiting) : s'.held.Perm s.held := by
  change (s'.output ++ s'.waiting).Perm (s.output ++ s.waiting)
  rw [ho, hw, List.append_assoc]
  refine ((List.reverse_perm moved).append_right _).trans ?_
  rw [← List.append_assoc, ← List.append_assoc]
  exact List.perm_append_comm.append_right _

theorem held_closeGroup (h : closeGroup output pending = some s) :
    s.held.Perm (State.mk output pending).held := by
  obtain ⟨moved, ho, hw⟩ := exists_moved_closeGroup h
  exact held_of_moved ho hw

theorem held_release (g : Grammar) (o : Operator) (output : List Token) (pending : List Pending) :
    (release g o output pending).held.Perm (State.mk output pending).held := by
  obtain ⟨moved, ho, hw⟩ := exists_moved_release g o output pending
  exact held_of_moved ho hw

theorem perm_of_finish (h : finish output pending = some result) :
    result.Perm (State.mk output pending).held := by
  rw [eq_of_finish h]
  exact (List.reverse_perm output).append_right _

theorem held_emit (s : State) (t : Token) : (s.emit t).held.Perm (s.held ++ [t]) := by
  simp only [held, emit, List.cons_append]
  exact (List.perm_append_singleton t _).symm

theorem held_hold {p : Pending} (s : State) (h : p.token? = some t) :
    (s.hold p).held.Perm (s.held ++ [t]) := by
  have hheld : (s.hold p).held = s.output ++ t :: s.waiting := by
    simp [held, hold, waiting, h]
  rw [hheld]
  exact List.perm_middle.trans (List.perm_append_singleton t _).symm

/-- A step takes its token in, unless it is a parenthesis. -/
theorem held_step (h : step g s t = some s') :
    s'.held.Perm (s.held ++ [t].filter (!isParenthesis ·)) := by
  obtain ⟨ht, rfl⟩ | ⟨f, rfl, -, rfl⟩ | ⟨rfl, rfl⟩ | ⟨rfl, hclose⟩ | ⟨o, rfl, rfl⟩ := step_cases h
  · have hword : isParenthesis t = false := by
      unfold isParenthesis
      split
      · cases ht
      · cases ht
      · rfl
    simpa [hword] using held_emit s t
  · exact held_hold s rfl
  · have hsame : (s.hold .group).held = s.held := rfl
    simp [hsame, isParenthesis]
  · simpa [isParenthesis] using held_closeGroup hclose
  · exact (held_hold _ rfl).trans ((held_release g o s.output s.pending).append_right _)

theorem held_foldlM (h : tokens.foldlM (step g) s = some s') :
    s'.held.Perm (s.held ++ tokens.filter (!isParenthesis ·)) := by
  have hstart : s.held.Perm (s.held ++ [].filter (!isParenthesis ·)) := by simp
  refine foldlM_induction (P := fun u ts => u.held.Perm (s.held ++ ts.filter (!isParenthesis ·)))
    ?_ hstart h
  intro u ts t v hu ht
  rw [List.filter_append, ← List.append_assoc]
  exact (held_step ht).trans (hu.append_right _)

end State

theorem perm_of_order? (h : order? g tokens = some result) :
    result.Perm (tokens.filter (!isParenthesis ·)) := by
  obtain ⟨s, hs, hf⟩ := Option.bind_eq_some_iff.mp h
  exact (State.perm_of_finish hf).trans (State.held_foldlM hs)

theorem subset_of_order? (h : order? g tokens = some result) : result ⊆ tokens := by
  intro t ht
  exact List.mem_of_mem_filter ((perm_of_order? h).subset ht)

end Postfix

end Reckon
