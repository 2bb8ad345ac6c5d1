import Mathlib.Data.List.Chain
import Reckon.Postfix.Yard
import Reckon.Proofs.Conservation

/-!
What stands on the stack while tokens are put into postfix order, well-formed or not. Main
statement: between open parentheses there are operators, each stronger than the one below it, and
on top of them functions; nothing else is ever there.
-/
namespace Reckon.Postfix

/-- The stack, its top first: an operator stands only where it leaves what is below it alone. -/
inductive Layered (g : Grammar) : List Token → Prop
  | nil : Layered g []
  | opening {stack : List Token} : Layered g stack → Layered g (.symbol .opening :: stack)
  | function {name : String} {stack : List Token} :
      g.isFunction name → Layered g stack → Layered g (.word name :: stack)
  | operator {o : Operator} {stack : List Token} :
      Yard.popsBefore g o stack = false → Layered g stack → Layered g (.symbol (.operator o) :: stack)

/-- Operators, each stronger than the one before it, and after them functions. -/
def Rising (g : Grammar) (segment : List Token) : Prop :=
  ∃ (operators : List Operator) (names : List String),
    segment = operators.map (.symbol <| .operator ·) ++ names.map .word ∧
    (operators.map g.precedence).Pairwise (· < ·) ∧
    ∀ name ∈ names, g.isFunction name

variable {g : Grammar} {o : Operator} {t : Token} {name : String}
  {output stack segment tokens : List Token}

namespace Layered

theorem of_append {above : List Token} (h : Layered g (above ++ stack)) : Layered g stack := by
  induction above with
  | nil => exact h
  | cons t above ih =>
    cases h with
    | opening h => exact ih h
    | function _ h => exact ih h
    | operator _ h => exact ih h

theorem of_suffix (h : Layered g stack) (hs : segment <:+ stack) : Layered g segment := by
  obtain ⟨above, rfl⟩ := hs
  exact h.of_append

theorem of_prefix (h : Layered g stack) (hs : segment <+: stack) : Layered g segment := by
  obtain ⟨below, rfl⟩ := hs
  induction segment with
  | nil => exact nil
  | cons t segment ih =>
    cases h with
    | opening h => exact opening (ih h)
    | function hf h => exact function hf (ih h)
    | operator ho h =>
      refine operator ?_ (ih h)
      -- Only the top is looked at, and it is the same one unless there is none.
      cases segment with
      | nil => rfl
      | cons u segment => cases u <;> exact ho

theorem of_infix (h : Layered g stack) (hs : segment <:+: stack) : Layered g segment := by
  obtain ⟨above, below, rfl⟩ := hs
  exact (h.of_prefix (List.prefix_append _ below)).of_append

theorem mem_cases (h : Layered g stack) (ht : t ∈ stack) :
    t = .symbol .opening ∨ (∃ o, t = .symbol (.operator o)) ∨
      ∃ name, t = .word name ∧ g.isFunction name := by
  obtain ⟨above, below, rfl⟩ := List.append_of_mem ht
  have htop : Layered g (t :: below) := h.of_append
  cases htop with
  | opening h => exact .inl rfl
  | function hf h => exact .inr (.inr ⟨_, rfl, hf⟩)
  | operator ho h => exact .inr (.inl ⟨_, rfl⟩)

end Layered

namespace Rising

theorem function (h : Rising g segment) (hf : g.isFunction name) :
    Rising g (segment ++ [.word name]) := by
  obtain ⟨operators, names, rfl, hlt, hnames⟩ := h
  refine ⟨operators, names ++ [name], by simp, hlt, ?_⟩
  intro n hn
  rcases List.mem_append.mp hn with hn | hn
  · exact hnames n hn
  · rwa [List.mem_singleton.mp hn]

/-- If `o` does not move the top then there are no functions, and the top is the strongest operator
there is. -/
theorem operator (h : Rising g stack.reverse) (ho : Yard.popsBefore g o stack = false) :
    Rising g (stack.reverse ++ [.symbol (.operator o)]) := by
  obtain ⟨operators, names, heq, hlt, hnames⟩ := h
  obtain rfl := List.reverse_eq_iff.mp heq
  rcases names.eq_nil_or_concat with rfl | ⟨names, name, rfl⟩
  · refine ⟨operators ++ [o], [], by simp, ?_, hnames⟩
    rw [← List.isChain_iff_pairwise] at hlt ⊢
    rw [List.map_append, List.isChain_append]
    refine ⟨hlt, List.isChain_singleton _, ?_⟩
    rcases operators.eq_nil_or_concat with rfl | ⟨operators, p, rfl⟩
    · simp
    · simpa [Yard.popsBefore, Symbol.operator?] using ho
  · simp [Yard.popsBefore] at ho

end Rising

theorem Layered.rising (h : Layered g segment) (hs : .symbol .opening ∉ segment) :
    Rising g segment.reverse := by
  induction h with
  | nil => exact ⟨[], [], rfl, .nil, by simp⟩
  | opening h ih => exact absurd List.mem_cons_self hs
  | function hf h ih =>
    rw [List.reverse_cons]
    exact (ih fun hm => hs (List.mem_cons_of_mem _ hm)).function hf
  | operator ho h ih =>
    rw [List.reverse_cons]
    exact (ih fun hm => hs (List.mem_cons_of_mem _ hm)).operator ho

namespace Yard

variable {y y' : Yard}

theorem release_suffix (g : Grammar) (o : Operator) (output stack : List Token) :
    (release g o output stack).stack <:+ stack := by
  fun_induction release g o output stack with
  | case1 output => exact List.suffix_refl _
  | case2 output t stack hpop ih => exact ih.trans (List.suffix_cons t stack)
  | case3 output t stack hstay => exact List.suffix_refl _

theorem popsBefore_release (g : Grammar) (o : Operator) (output stack : List Token) :
    popsBefore g o (release g o output stack).stack = false := by
  fun_induction release g o output stack with
  | case1 output => rfl
  | case2 output t stack hpop ih => exact ih
  | case3 output t stack hstay => simpa using hstay

theorem count_release (g : Grammar) (o : Operator) (output stack : List Token) :
    (release g o output stack).stack.count (.symbol .opening) =
      stack.count (.symbol .opening) := by
  fun_induction release g o output stack with
  | case1 output => rfl
  | case2 output t stack hpop ih =>
    have ht : t ≠ .symbol .opening := by
      rintro rfl
      cases hpop
    rw [ih, List.count_cons_of_ne ht]
  | case3 output t stack hstay => rfl

theorem exists_of_unwind (h : unwind output stack = some y) :
    ∃ above, .symbol .opening ∉ above ∧ stack = above ++ .symbol .opening :: y.stack := by
  fun_induction unwind output stack with
  | case1 output => cases h
  | case2 output stack =>
    obtain rfl := Option.some.inj h
    exact ⟨[], by simp, rfl⟩
  | case3 output t stack ht ih =>
    obtain ⟨above, hno, rfl⟩ := ih h
    refine ⟨t :: above, ?_, rfl⟩
    intro hm
    rcases List.mem_cons.mp hm with rfl | hm
    · exact ht rfl
    · exact hno hm

/-- Only a name is ever taken off. -/
theorem exists_settle (g : Grammar) (y : Yard) :
    ∃ above, .symbol .opening ∉ above ∧ y.stack = above ++ (settle g y).stack := by
  unfold settle
  split
  · next name stack hy =>
    split
    · exact ⟨[.word name], by simp, hy⟩
    · exact ⟨[], by simp, rfl⟩
  · exact ⟨[], by simp, rfl⟩

theorem exists_of_close (h : (unwind output stack).map (settle g) = some y) :
    ∃ above, stack = above ++ y.stack ∧ above.count (.symbol .opening) = 1 := by
  obtain ⟨u, hu, rfl⟩ := Option.map_eq_some_iff.mp h
  obtain ⟨above, hno, rfl⟩ := exists_of_unwind hu
  obtain ⟨top, htop, hstack⟩ := exists_settle g u
  refine ⟨above ++ .symbol .opening :: top, by simp [← hstack], ?_⟩
  simp [List.count_eq_zero.mpr hno, List.count_eq_zero.mpr htop]

/-- All that a step can do. -/
theorem step_cases (h : step g y t = some y') :
    (g.isOperand t ∧ y' = y.emit t) ∨
    (∃ name, t = .word name ∧ g.isFunction name ∧ y' = y.push t) ∨
    (t = .symbol .opening ∧ y' = y.push t) ∨
    (t = .symbol .closing ∧ (unwind y.output y.stack).map (settle g) = some y') ∨
    ∃ o, t = .symbol (.operator o) ∧ y' = (release g o y.output y.stack).push t := by
  cases t with
  | number text => exact .inl ⟨rfl, (Option.some.inj h).symm⟩
  | word name =>
    by_cases hf : g.isFunction name
    · rw [step, if_pos hf] at h
      exact .inr (.inl ⟨name, rfl, hf, (Option.some.inj h).symm⟩)
    · rw [step, if_neg hf] at h
      exact .inl ⟨by simpa [Grammar.isOperand] using hf, (Option.some.inj h).symm⟩
  | symbol symbol =>
    rcases symbol with _ | _ | o
    · exact .inr (.inr (.inl ⟨rfl, (Option.some.inj h).symm⟩))
    · exact .inr (.inr (.inr (.inl ⟨rfl, h⟩)))
    · exact .inr (.inr (.inr (.inr ⟨o, rfl, (Option.some.inj h).symm⟩)))

theorem layered_step (h : Layered g y.stack) (hs : step g y t = some y') :
    Layered g y'.stack := by
  obtain ⟨-, rfl⟩ | ⟨name, rfl, hf, rfl⟩ | ⟨rfl, rfl⟩ | ⟨rfl, hclose⟩ | ⟨o, rfl, rfl⟩ :=
    step_cases hs
  · exact h
  · exact .function hf h
  · exact .opening h
  · obtain ⟨above, heq, -⟩ := exists_of_close hclose
    rw [heq] at h
    exact h.of_append
  · exact .operator (popsBefore_release g o _ _) (h.of_suffix (release_suffix g o _ _))

theorem count_step (hs : step g y t = some y') :
    y'.stack.count (.symbol .opening) + [t].count (.symbol .closing) =
      y.stack.count (.symbol .opening) + [t].count (.symbol .opening) := by
  obtain ⟨ht, rfl⟩ | ⟨name, rfl, -, rfl⟩ | ⟨rfl, rfl⟩ | ⟨rfl, hclose⟩ | ⟨o, rfl, rfl⟩ :=
    step_cases hs
  · cases t with
    | number | word => simp [emit]
    | symbol => cases ht
  · simp [push]
  · simp [push]
  · obtain ⟨above, heq, hcount⟩ := exists_of_close hclose
    simp [heq, hcount, Nat.add_comm]
  · simp [push, count_release]

theorem layered_foldlM (h : tokens.foldlM (step g) {} = some y) : Layered g y.stack :=
  foldlM_induction (P := fun u _ => Layered g u.stack) layered_step .nil h

theorem count_foldlM (h : tokens.foldlM (step g) {} = some y) :
    y.stack.count (.symbol .opening) + tokens.count (.symbol .closing) =
      tokens.count (.symbol .opening) := by
  refine foldlM_induction (P := fun u ts =>
    u.stack.count (.symbol .opening) + ts.count (.symbol .closing) = ts.count (.symbol .opening))
    ?_ rfl h
  intro u ts t v hu hs
  have ht := count_step hs
  simp only [List.count_append]
  omega

/-! The translation takes the same course; its entries say besides what they are. -/

theorem close_yard (output : List Token) (pending : List Pending)
    (h : Layered g (pending.map Pending.token)) :
    (unwind output (pending.map Pending.token)).map (settle g) =
      (State.closeGroup output pending).map State.yard := by
  fun_induction State.closeGroup output pending with
  | case1 output => rfl
  | case2 output f pending =>
    have hf : g.isFunction f.name := by
      cases h with
      | opening h =>
        cases h with
        | function hf h => exact hf
    simp [Pending.token, unwind, settle, hf, State.yard]
  | case3 output pending hne =>
    cases pending with
    | nil => rfl
    | cons entry pending =>
      cases entry with
      | group | operator => rfl
      | function f => exact absurd rfl (hne f pending)
  | case4 output o pending ih =>
    cases h with
    | operator _ h => exact ih h
  | case5 output f pending ih =>
    cases h with
    | function _ h => exact ih h

theorem release_yard (g : Grammar) (o : Operator) (output : List Token) (pending : List Pending) :
    release g o output (pending.map Pending.token) = (State.release g o output pending).yard := by
  fun_induction State.release g o output pending with
  | case1 output f pending ih => exact ih
  | case2 output p pending hle ih =>
    rw [← ih]
    simp [Pending.token, release, popsBefore, Symbol.operator?, hle]
  | case3 output p pending hlt =>
    simp [Pending.token, release, popsBefore, Symbol.operator?, hlt, State.yard]
  | case4 output pending hf ho =>
    cases pending with
    | nil => rfl
    | cons entry pending =>
      cases entry with
      | group => rfl
      | operator p => exact absurd rfl (ho p pending)
      | function f => exact absurd rfl (hf f pending)

theorem finish_yard (output : List Token) (pending : List Pending) :
    finish output (pending.map Pending.token) = State.finish output pending := by
  fun_induction State.finish output pending with
  | case1 output => rfl
  | case2 output pending => rfl
  | case3 output o pending ih => exact ih
  | case4 output f pending ih => exact ih

theorem step_yard {s : State} (h : Layered g s.yard.stack) (t : Token) :
    step g s.yard t = (State.step g s t).map State.yard := by
  cases t with
  | number text => rfl
  | word name =>
    cases hf : g.function? name with
    | none => simp [step, State.step, Grammar.isFunction, hf, emit, State.emit, State.yard]
    | some f =>
      obtain ⟨rfl, -⟩ := Grammar.function?_eq_some.mp hf
      simp [step, State.step, Grammar.isFunction, hf, push, State.hold, State.yard, Pending.token]
  | symbol symbol =>
    rcases symbol with _ | _ | o
    · rfl
    · exact close_yard s.output s.pending h
    · have hrelease := release_yard g o s.output s.pending
      exact congrArg (fun y => some (y.push (.symbol (.operator o)))) hrelease

theorem foldlM_yard {s : State} (h : Layered g s.yard.stack) (tokens : List Token) :
    tokens.foldlM (step g) s.yard = (tokens.foldlM (State.step g) s).map State.yard := by
  induction tokens generalizing s with
  | nil => rfl
  | cons t tokens ih =>
    have ht := step_yard h t
    rw [List.foldlM_cons, List.foldlM_cons, ht]
    cases hs : State.step g s t with
    | none => rfl
    | some u =>
      rw [hs] at ht
      exact ih (layered_step h ht)

theorem order?_yard (g : Grammar) (tokens : List Token) :
    order? g tokens = Postfix.order? g tokens := by
  have hs : tokens.foldlM (step g) {} = (tokens.foldlM (State.step g) {}).map State.yard :=
    foldlM_yard (s := {}) .nil tokens
  rw [order?, hs, Postfix.order?]
  cases tokens.foldlM (State.step g) {} with
  | none => rfl
  | some s => exact finish_yard s.output s.pending

/-- After any tokens, in whatever order they come: operands and closing parentheses are not on the
stack, and any name there is a function. Each stretch of it between open parentheses, of which there
are as many as are not closed yet, is rising from the bottom to the top. -/
theorem stack_layers (g : Grammar) (tokens : List Token) :
    order? g tokens = Postfix.order? g tokens ∧
    tokens.foldlM (step g) {} = (tokens.foldlM (State.step g) {}).map State.yard ∧
    ∀ y, tokens.foldlM (step g) {} = some y →
      .symbol .closing ∉ y.stack ∧
      (∀ text, .number text ∉ y.stack) ∧
      (∀ name, .word name ∈ y.stack → g.isFunction name) ∧
      y.stack.count (.symbol .opening) + tokens.count (.symbol .closing) =
        tokens.count (.symbol .opening) ∧
      ∀ segment, segment <:+: y.stack → .symbol .opening ∉ segment →
        Rising g segment.reverse := by
  refine ⟨order?_yard g tokens, foldlM_yard (s := {}) .nil tokens, ?_⟩
  intro y hy
  have hlayered := layered_foldlM hy
  refine ⟨?_, ?_, ?_, count_foldlM hy, ?_⟩
  · intro hm
    simpa using hlayered.mem_cases hm
  · intro text hm
    simpa using hlayered.mem_cases hm
  · intro name hm
    simpa using hlayered.mem_cases hm
  · intro segment hin hno
    exact (hlayered.of_infix hin).rising hno

/-- A group that is closed and one that is not, with two functions that have no operand. -/
theorem stack_layers_unfinished :
    let tokens : List Token := [.symbol .opening, .number "1", .symbol .closing,
      .symbol (.operator .add), .number "2", .symbol (.operator .mul), .symbol .opening, .word "x",
      .symbol (.operator .sub), .word "sin", .word "cos"]
    let y : Yard := ⟨[.word "x", .number "2", .number "1"], [.word "cos", .word "sin",
      .symbol (.operator .sub), .symbol .opening, .symbol (.operator .mul),
      .symbol (.operator .add)]⟩
    tokens.foldlM (step {}) {} = some y ∧
      .symbol .closing ∉ y.stack ∧ Grammar.isFunction {} "cos" ∧
      y.stack.count (.symbol .opening) + 1 = 2 ∧
      Rising {} [.symbol (.operator .sub), .word "sin", .word "cos"] ∧
      Rising {} [.symbol (.operator .add), .symbol (.operator .mul)] := by
  intro tokens y
  have hy : tokens.foldlM (step {}) {} = some y := by decide +kernel
  obtain ⟨-, -, hstack⟩ := stack_layers {} tokens
  obtain ⟨hclosing, -, hnames, hcount, hrising⟩ := hstack y hy
  refine ⟨hy, hclosing, hnames "cos" (by simp [y]), hcount, ?_, ?_⟩
  · exact hrising [.word "cos", .word "sin", .symbol (.operator .sub)]
      ⟨[], y.stack.drop 3, rfl⟩ (by simp)
  · exact hrising [.symbol (.operator .mul), .symbol (.operator .add)]
      ⟨y.stack.take 4, [], rfl⟩ (by simp)

end Yard

end Reckon.Postfix
