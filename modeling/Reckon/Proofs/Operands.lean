import Reckon.Proofs.Conservation

/-!
The translation to postfix order keeps the operands in their order: they never wait, and what waits
comes to stand after all that is in the output.
-/
namespace Reckon

variable {g : Grammar} {t : Token} {ts tokens result moved : List Token}

namespace Postfix

variable {s s' : State}

/-- The operands of the tokens so far are in the output, and none waits. -/
structure InOrder (g : Grammar) (s : State) (ts : List Token) : Prop where
  output : s.output.reverse.filter g.isOperand = ts.filter g.isOperand
  waiting : s.waiting.filter g.isOperand = []

namespace InOrder

theorem start (g : Grammar) : InOrder g {} [] :=
  ⟨rfl, rfl⟩

theorem move (h : InOrder g s ts) (ho : s'.output = moved.reverse ++ s.output)
    (hw : s.waiting = moved ++ s'.waiting) : InOrder g s' ts := by
  have hwaiting := h.waiting
  rw [hw, List.filter_append, List.append_eq_nil_iff] at hwaiting
  refine ⟨?_, hwaiting.2⟩
  rw [ho, List.reverse_append, List.reverse_reverse, List.filter_append, hwaiting.1, h.output,
    List.append_nil]

theorem emit (h : InOrder g s ts) (t : Token) : InOrder g (s.emit t) (ts ++ [t]) := by
  refine ⟨?_, h.waiting⟩
  rw [State.emit, List.reverse_cons, List.filter_append, List.filter_append, h.output]

theorem hold (h : InOrder g s ts) {p : Pending} (hp : ∀ u ∈ p.token?, g.isOperand u = false)
    (ht : g.isOperand t = false) : InOrder g (s.hold p) (ts ++ [t]) := by
  constructor
  · simpa [State.hold, ht] using h.output
  · have hwaiting := h.waiting
    cases hu : p.token? with
    | none => simpa [State.waiting, State.hold, hu] using hwaiting
    | some u => simpa [State.waiting, State.hold, hu, hp u hu] using hwaiting

theorem step (h : InOrder g s ts) (hs : State.step g s t = some s') :
    InOrder g s' (ts ++ [t]) := by
  obtain ⟨-, rfl⟩ | ⟨f, rfl, hf, rfl⟩ | ⟨rfl, rfl⟩ | ⟨rfl, hclose⟩ | ⟨o, rfl, rfl⟩ :=
    State.step_cases hs
  · exact h.emit t
  · have hword : g.isOperand (.word f.name) = false := by
      simp [Grammar.isOperand, Grammar.isFunction, hf]
    exact h.hold (by simpa [Pending.token?] using hword) hword
  · exact h.hold (by simp [Pending.token?]) rfl
  · obtain ⟨moved, ho, hw⟩ := State.exists_moved_closeGroup hclose
    have hmoved : InOrder g s' ts := h.move ho hw
    exact ⟨by simpa [Grammar.isOperand] using hmoved.output, hmoved.waiting⟩
  · obtain ⟨moved, ho, hw⟩ := State.exists_moved_release g o s.output s.pending
    have hmoved : InOrder g (State.release g o s.output s.pending) ts := h.move ho hw
    exact hmoved.hold (by simp [Pending.token?, Grammar.isOperand]) rfl

end InOrder

theorem filter_isOperand_order? (h : order? g tokens = some result) :
    result.filter g.isOperand = tokens.filter g.isOperand := by
  obtain ⟨s, hs, hf⟩ := Option.bind_eq_some_iff.mp h
  have hin : InOrder g s tokens := foldlM_induction InOrder.step (InOrder.start g) hs
  rw [State.eq_of_finish hf, List.filter_append, hin.output]
  exact (congrArg _ hin.waiting).trans (List.append_nil _)

end Postfix

end Reckon
