import Reckon.Proofs.Balance
import Reckon.Proofs.Reading
import Reckon.Proofs.Shortest

/-! The trees that parsing returns consist of nodes that can be written down again. -/
namespace Reckon

open Bits Lexer

variable {g : Grammar} {t : Token} {n : Node} {f : Func} {o : Operator} {e a l r : Expr}
  {text : String}

/-- A node that some token of the lexer stands for. -/
def Node.Legible (g : Grammar) : Node → Prop
  | const x => Unsigned x
  | var name => IsWord name.toList ∧ g.function? name = none ∧ Numeral.read? name = none
  | function f => g.function? f.name = some f
  | operator _ => True

def Expr.Legible (g : Grammar) (e : Expr) : Prop :=
  ∀ n ∈ e.postorder, n.Legible g

theorem unsigned_special {cs : List Char} {x : Float} (h : Numeral.special? cs = some x) :
    Unsigned x := by
  rcases Numeral.special?_eq_some h with rfl | rfl
  · show (1 / 0 : Float).toBits.toNat < 2 ^ 63
    decide +kernel
  · show (0 / 0 : Float).toBits.toNat < 2 ^ 63
    decide +kernel

namespace Node

theorem legible_leaf_number (h : IsNumber text.toList) : (leaf text).Legible g := by
  obtain ⟨d, hd⟩ := Numeral.read?_number h
  rw [String.ofList_toList] at hd
  rw [leaf, hd]
  exact d.unsigned_toFloat

theorem legible_leaf_word (h : IsWord text.toList) (hf : g.function? text = none) :
    (leaf text).Legible g := by
  have hread := Numeral.read?_word h
  rw [String.ofList_toList] at hread
  rw [leaf]
  cases hs : Numeral.read? text with
  | none => exact ⟨h, hf, hs⟩
  | some x => exact unsigned_special (hread.symm.trans hs)

theorem legible_node (ht : Spelled t) (h : g.node t = .ok n) : n.Legible g := by
  obtain ⟨hoperand, rfl⟩ | ⟨f, rfl, hf, rfl⟩ | ⟨o, rfl, rfl⟩ := Grammar.node_cases h
  · cases t with
    | number text => exact legible_leaf_number ht
    | word text => exact legible_leaf_word ht (Grammar.isOperand_word.mp hoperand)
    | symbol s => cases hoperand
  · exact hf
  · trivial

end Node

namespace Expr

theorem legible_call :
    (call f a).Legible g ↔ a.Legible g ∧ g.function? f.name = some f := by
  simp [Legible, postorder, or_imp, forall_and, Node.Legible]

theorem legible_binary :
    (binary o l r).Legible g ↔ l.Legible g ∧ r.Legible g := by
  simp [Legible, postorder, or_imp, forall_and, Node.Legible]

end Expr

theorem Grammar.parse_eq_ok (h : g.parse text = .ok e) :
    ∃ tokens, tokenize text = .ok tokens ∧ g.parseTokens tokens = .ok e := by
  obtain ⟨tokens, ht, h⟩ := bind_eq_ok.mp h
  refine ⟨tokens, ht, ?_⟩
  cases hp : g.parseTokens tokens with
  | error fault =>
    rw [hp] at h
    cases h
  | ok e' =>
    rw [hp] at h
    exact congrArg Except.ok (Except.ok.inj h)

theorem Expr.legible_of_parse (h : g.parse text = .ok e) : e.Legible g := by
  obtain ⟨tokens, ht, hp⟩ := Grammar.parse_eq_ok h
  obtain ⟨listing, ho, hm⟩ := Grammar.parseTokens_eq_ok hp
  intro n hn
  obtain ⟨t, htl, hnode⟩ := exists_of_mem_mapM hm n hn
  exact Node.legible_node (spelled_of_tokenize ht t (Postfix.subset_of_order? ho htl)) hnode

end Reckon
