import Reckon.Postfix
import Reckon.Proofs.Formula

/-!
What the translation to postfix order does with the tokens of an ordered formula: it ends in a state
that goes on as if the formula's listing were already in the output.
-/
namespace Reckon

variable {g : Grammar}

namespace Postfix.State

/-- The operator `o`, coming next, leaves all that waits where it is. -/
def Keeps (g : Grammar) (o : Operator) : List Pending → Prop
  | .function _ :: _ => False
  | .operator p :: _ => g.precedence p < g.precedence o
  | _ => True

theorem release_of_keeps {o : Operator} {pending : List Pending} (h : Keeps g o pending)
    (output : List Token) : release g o output pending = ⟨output, pending⟩ := by
  unfold release
  split
  · exact h.elim
  · rw [if_neg (Nat.not_le.mpr h)]
  · rfl

theorem Keeps.mono {o p : Operator} {pending : List Pending} (hk : Keeps g o pending)
    (h : g.precedence o ≤ g.precedence p) : Keeps g p pending := by
  unfold Keeps at hk ⊢
  split at hk
  · exact hk
  · exact Nat.lt_of_lt_of_le hk h
  · trivial

/-- Two states that go on alike, whether the next token is an operator of `P` or a closing
parenthesis, or none comes. -/
structure Alike (g : Grammar) (P : Operator → Prop) (s t : State) : Prop where
  release : ∀ o, P o → release g o s.output s.pending = release g o t.output t.pending
  close : closeGroup s.output s.pending = closeGroup t.output t.pending
  finish : finish s.output s.pending = finish t.output t.pending

namespace Alike

variable {P Q : Operator → Prop} {s t u : State}

theorem refl (s : State) : Alike g P s s :=
  ⟨fun _ _ => rfl, rfl, rfl⟩

theorem symm (h : Alike g P s t) : Alike g P t s :=
  ⟨fun o ho => (h.release o ho).symm, h.close.symm, h.finish.symm⟩

theorem trans (h : Alike g P s t) (h' : Alike g P t u) : Alike g P s u :=
  ⟨fun o ho => (h.release o ho).trans (h'.release o ho), h.close.trans h'.close,
    h.finish.trans h'.finish⟩

theorem mono (h : Alike g P s t) (hq : ∀ o, Q o → P o) : Alike g Q s t :=
  ⟨fun o ho => h.release o (hq o ho), h.close, h.finish⟩

/-- A waiting function whose operand is complete may as well be in the output. -/
theorem function (f : Func) (output : List Token) (pending : List Pending) :
    Alike g P ⟨output, .function f :: pending⟩ ⟨.word f.name :: output, pending⟩ :=
  ⟨fun _ _ => rfl, rfl, rfl⟩

/-- So may a waiting operator, if no stronger one comes. -/
theorem operator {o : Operator} (ho : ∀ p, P p → g.precedence p ≤ g.precedence o)
    (output : List Token) (pending : List Pending) :
    Alike g P ⟨output, .operator o :: pending⟩ ⟨.symbol (.operator o) :: output, pending⟩ := by
  refine ⟨?_, rfl, rfl⟩
  intro p hp
  simp [State.release, ho p hp]

/-- A closed group leaves what its content would leave without the parentheses. -/
theorem group (output : List Token) (pending : List Pending) :
    ∃ s, closeGroup output (.group :: pending) = some s ∧ Alike g P s ⟨output, pending⟩ := by
  cases pending with
  | nil => exact ⟨_, rfl, refl _⟩
  | cons entry pending =>
    cases entry with
    | group | operator => exact ⟨_, rfl, refl _⟩
    | function f => exact ⟨_, rfl, (function f output pending).symm⟩

end Alike

end Postfix.State

open Postfix.State

/-- The operators that take the formula, as it stands, for their left operand. -/
def Formula.FollowedBy (e : Formula g) (o : Operator) : Prop :=
  ∀ p ∈ e.root?, g.precedence o ≤ g.precedence p

mutual

theorem Operand.translate (a : Operand g) (ha : a.Ordered) (s : Postfix.State)
    (P : Operator → Prop) :
    ∃ t, a.tokens.foldlM (step g) s = some t ∧
      Alike g P t ⟨a.listing.reverse ++ s.output, s.pending⟩ := by
  cases a with
  | number text => exact ⟨_, rfl, Alike.refl _⟩
  | name text free =>
    refine ⟨s.emit (.word text), ?_, Alike.refl _⟩
    simp [Operand.tokens, step, free]
  | apply f known a =>
    obtain ⟨t, ht, hat⟩ := a.translate ha (s.hold (.function f)) P
    refine ⟨t, ?_, hat.trans ?_⟩
    · simpa [Operand.tokens, step, known] using ht
    · simpa [Operand.listing, hold] using Alike.function f _ _
  | group e =>
    obtain ⟨t, ht, hat⟩ := e.translate ha (s.hold .group) (fun _ _ => trivial)
    obtain ⟨u, hu, hau⟩ := Alike.group (g := g) (P := P) (e.listing.reverse ++ s.output) s.pending
    have hc : closeGroup t.output t.pending = some u := hat.close.trans hu
    refine ⟨u, ?_, hau⟩
    simp [Operand.tokens, step, ht, hc]

/-- Nothing that waited before the formula moves: its weakest operator is its root, and `hs` says
that the root keeps it. -/
theorem Formula.translate (e : Formula g) (he : e.Ordered) (s : Postfix.State)
    (hs : ∀ o ∈ e.root?, Keeps g o s.pending) :
    ∃ t, e.tokens.foldlM (step g) s = some t ∧
      Alike g e.FollowedBy t ⟨e.listing.reverse ++ s.output, s.pending⟩ := by
  cases e with
  | operand a => exact a.translate he s _
  | binary o l r =>
    obtain ⟨hl, hr, hlo, hro⟩ := he
    have ho : Keeps g o s.pending := hs o rfl
    have hkeeps : ∀ p ∈ l.root?, Keeps g p s.pending := by
      intro p hp
      exact ho.mono (hlo p hp)
    obtain ⟨t, ht, hat⟩ := l.translate hl s hkeeps
    have hstep : release g o t.output t.pending = ⟨l.listing.reverse ++ s.output, s.pending⟩ :=
      (hat.release o hlo).trans (release_of_keeps ho _)
    obtain ⟨u, hu, hau⟩ := r.translate hr
      ((⟨l.listing.reverse ++ s.output, s.pending⟩ : Postfix.State).hold (.operator o)) hro
    have hle : ∀ p, (Formula.binary o l r).FollowedBy p → g.precedence p ≤ g.precedence o := by
      intro p hp
      exact hp o rfl
    have hfollow : ∀ p, (Formula.binary o l r).FollowedBy p → r.FollowedBy p := by
      intro p hp q hq
      exact Nat.le_trans (hle p hp) (Nat.le_of_lt (hro q hq))
    refine ⟨u, ?_, (hau.mono hfollow).trans ?_⟩
    · simp [Formula.tokens, ht, step, hstep, hu]
    · simpa [Formula.listing, hold] using Alike.operator hle _ _

end

theorem Formula.postfixOrder_tokens {e : Formula g} (he : e.Ordered) :
    g.postfixOrder e.tokens = .ok e.listing := by
  obtain ⟨t, ht, hat⟩ := e.translate he {} fun _ _ => trivial
  have hf : finish t.output t.pending = some e.listing := by
    rw [hat.finish]
    simp [finish]
  simp [Grammar.postfixOrder, Postfix.order?, ht, hf]

end Reckon
