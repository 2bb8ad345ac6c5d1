import Mathlib
import Reckon.Parse
import Reckon.Proofs.Conservation
import Reckon.Proofs.Forest

/-!
Counting operands against operators: a tree has one leaf more than it has operators, so tokens that
do not add up to one make no tree.
-/
namespace Reckon

variable {g : Grammar} {t : Token} {n : Node} {ts tokens : List Token} {e : Expr}

/-- What a node does to the number of trees that wait for a parent. -/
def Node.weight : Node → ℤ
  | const _ | var _ => 1
  | function _ => 0
  | operator _ => -1

theorem Node.leaf_cases (text : String) :
    (∃ x, Node.leaf text = .const x) ∨ Node.leaf text = .var text := by
  cases h : Numeral.read? text <;> simp [Node.leaf, h]

theorem Node.weight_leaf (text : String) : (Node.leaf text).weight = 1 := by
  rcases Node.leaf_cases text with ⟨x, hx⟩ | hx <;> rw [hx] <;> rfl

namespace Grammar

/-- What a token does to it. -/
def weight (g : Grammar) : Token → ℤ
  | .number _ => 1
  | .word text => if g.isFunction text then 0 else 1
  | .symbol (.operator _) => -1
  | .symbol _ => 0

theorem node_of_isOperand (h : g.isOperand t) : g.node t = .ok (.leaf t.text) := by
  cases t with
  | number text => rfl
  | word text => simp [node, isOperand_word.mp h, Token.text]
  | symbol s => cases h

/-- All that a token may stand for in postfix order. -/
theorem node_cases (h : g.node t = .ok n) :
    (g.isOperand t ∧ n = .leaf t.text) ∨
    (∃ f, t = .word f.name ∧ g.function? f.name = some f ∧ n = .function f) ∨
    ∃ o, t = .symbol (.operator o) ∧ n = .operator o := by
  cases t with
  | number text => exact .inl ⟨rfl, (Except.ok.inj h).symm⟩
  | word text =>
    cases hf : g.function? text with
    | none =>
      have hoperand : g.isOperand (.word text) := isOperand_word.mpr hf
      rw [node_of_isOperand hoperand] at h
      exact .inl ⟨hoperand, (Except.ok.inj h).symm⟩
    | some f =>
      simp only [node, hf, Option.elim_some, Except.ok.injEq] at h
      obtain ⟨rfl, -⟩ := function?_eq_some.mp hf
      exact .inr (.inl ⟨f, rfl, hf, h.symm⟩)
  | symbol s =>
    rcases s with _ | _ | o
    · cases h
    · cases h
    · exact .inr (.inr ⟨o, rfl, (Except.ok.inj h).symm⟩)

theorem weight_of_isOperand (h : g.isOperand t) : g.weight t = 1 := by
  cases t with
  | number text => rfl
  | word text => simp [weight, isFunction, isOperand_word.mp h]
  | symbol s => cases h

theorem weight_node (h : g.node t = .ok n) : n.weight = g.weight t := by
  obtain ⟨ht, rfl⟩ | ⟨f, rfl, hf, rfl⟩ | ⟨o, rfl, rfl⟩ := node_cases h
  · rw [Node.weight_leaf, weight_of_isOperand ht]
  · simp [weight, isFunction, hf, Node.weight]
  · rfl

theorem sum_weight_nodes {nodes : List Node} (h : ts.mapM g.node = .ok nodes) :
    (nodes.map Node.weight).sum = (ts.map g.weight).sum := by
  induction ts generalizing nodes with
  | nil =>
    obtain rfl : [] = nodes := Except.ok.inj h
    rfl
  | cons t ts ih =>
    simp only [List.mapM_cons, bind_eq_ok, pure_eq_ok] at h
    obtain ⟨n, hn, nodes, hnodes, rfl⟩ := h
    simp only [List.map_cons, List.sum_cons, weight_node hn, ih hnodes]

end Grammar

theorem Expr.sum_weight_postorder (e : Expr) : (e.postorder.map Node.weight).sum = 1 := by
  induction e with
  | const x => rfl
  | var name => rfl
  | call f a ih => simp [postorder, ih, Node.weight]
  | binary o l r ihl ihr => simp [postorder, ihl, ihr, Node.weight]

namespace Grammar

theorem weight_of_isParenthesis (h : Postfix.isParenthesis t) : g.weight t = 0 := by
  unfold Postfix.isParenthesis at h
  split at h
  · rfl
  · rfl
  · cases h

theorem sum_weight_filter (g : Grammar) (ts : List Token) :
    ((ts.filter (!Postfix.isParenthesis ·)).map g.weight).sum = (ts.map g.weight).sum := by
  induction ts with
  | nil => rfl
  | cons t ts ih =>
    by_cases ht : Postfix.isParenthesis t = true
    · simp [ht, ih, weight_of_isParenthesis ht]
    · simp [ht, ih]

theorem parseTokens_eq_ok (h : g.parseTokens tokens = .ok e) :
    ∃ listing, Postfix.order? g tokens = some listing ∧
      listing.mapM g.node = .ok e.postorder := by
  obtain ⟨listing, ho, hb⟩ := bind_eq_ok.mp h
  refine ⟨listing, ?_, build_eq_ok_iff.mp hb⟩
  unfold postfixOrder at ho
  cases hl : Postfix.order? g tokens with
  | none =>
    rw [hl] at ho
    cases ho
  | some l =>
    rw [hl] at ho
    rw [Except.ok.inj ho]

theorem sum_weight_of_parseTokens (h : g.parseTokens tokens = .ok e) :
    (tokens.map g.weight).sum = 1 := by
  obtain ⟨listing, ho, hm⟩ := parseTokens_eq_ok h
  have hperm := (Postfix.perm_of_order? ho).map g.weight
  rw [← sum_weight_filter, ← hperm.sum_eq, ← sum_weight_nodes hm, e.sum_weight_postorder]

end Grammar

end Reckon
