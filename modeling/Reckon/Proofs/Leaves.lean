import Reckon.Proofs.Balance
import Reckon.Proofs.Legible
import Reckon.Proofs.Operands
import Reckon.Proofs.Walk

/-!
What a text says is what its tree holds: the operands of the text are the leaves of the tree, in the
same order, and its operators and functions are those of the inner nodes.
-/
namespace Reckon

variable {g : Grammar} {t : Token} {n : Node} {ts listing tokens : List Token} {nodes : List Node}
  {e : Expr} {text name : String}

namespace Node

def isLeaf : Node → Bool
  | const _ | var _ => true
  | _ => false

def operator? : Node → Option Operator
  | operator o => some o
  | _ => none

def function? : Node → Option Func
  | function f => some f
  | _ => none

end Node

def Token.operator? : Token → Option Operator
  | symbol s => s.operator?
  | _ => none

/-- The names that stand for infinity or for what is not a number, in any letter case. -/
def NamesNumber (name : String) : Prop :=
  name.toLower ∈ ["inf", "infinity", "nan"]

instance : DecidablePred NamesNumber := fun name =>
  inferInstanceAs (Decidable (name.toLower ∈ _))

namespace Grammar

def functionOf? (g : Grammar) : Token → Option Func
  | .word text => g.function? text
  | _ => none

/-- The variable that the token names. -/
def variableOf? (g : Grammar) : Token → Option String
  | .word text => if g.isFunction text ∨ NamesNumber text then none else some text
  | _ => none

end Grammar

namespace Expr

/-- The leaves from left to right. -/
def leaves : Expr → List Node
  | const x => [.const x]
  | var name => [.var name]
  | call _ a => a.leaves
  | binary _ l r => l.leaves ++ r.leaves

theorem filter_postorder (e : Expr) : e.postorder.filter Node.isLeaf = e.leaves := by
  induction e with
  | const x => rfl
  | var name => rfl
  | call f a ih => simp [postorder, leaves, ih, Node.isLeaf]
  | binary o l r ihl ihr => simp [postorder, leaves, ihl, ihr, Node.isLeaf]

theorem filterMap_leaves (e : Expr) : e.leaves.filterMap Node.var? = e.leafNames := by
  induction e with
  | const x => rfl
  | var name => rfl
  | call f a ih => exact ih
  | binary o l r ihl ihr => simp [leaves, leafNames, ihl, ihr]

/-- A tree has one leaf more than it has operators. -/
theorem length_leaves (e : Expr) :
    e.leaves.length = (e.postorder.filterMap Node.operator?).length + 1 := by
  induction e with
  | const x => rfl
  | var name => rfl
  | call f a ih => simp [postorder, leaves, ih, Node.operator?]
  | binary o l r ihl ihr =>
    simp [postorder, leaves, ihl, ihr, Node.operator?]
    omega

theorem perm_nodes (e : Expr) : e.postorder.Perm e.nodes := by
  rw [nodes_eq_preorder]
  induction e with
  | const x => exact List.Perm.refl _
  | var name => exact List.Perm.refl _
  | call f a ih => exact (List.perm_append_singleton _ _).trans (ih.cons _)
  | binary o l r ihl ihr => exact (List.perm_append_singleton _ _).trans ((ihl.append ihr).cons _)

end Expr

section Words

theorem special?_isSome (cs : List Char) :
    (Numeral.special? cs).isSome ↔ NamesNumber (String.ofList cs) := by
  have hlower : (String.ofList cs).toLower = String.ofList (cs.map Char.toLower) := by
    apply String.toList_injective
    simp [String.toLower]
  rw [NamesNumber, hlower, Numeral.special?]
  split
  · rename_i h
    simp [h]
  · rename_i h
    simp [h]
  · rename_i h
    simp [h]
  · rename_i hinf hinfinity hnan
    simpa using ⟨hinf, hinfinity, hnan⟩

/-- A number is a constant, and so is a name of a number. -/
theorem leaf_of_number (h : Lexer.Spelled (.number text)) :
    ∃ x, Numeral.read? text = some x ∧ Node.leaf text = .const x := by
  obtain ⟨d, hd⟩ := Numeral.read?_number h
  rw [String.ofList_toList] at hd
  exact ⟨_, hd, by rw [Node.leaf, hd]; rfl⟩

theorem leaf_of_word (h : Lexer.Spelled (.word name)) :
    ((∃ x, Node.leaf name = .const x) ↔ NamesNumber name) ∧
      (¬ NamesNumber name → Node.leaf name = .var name) := by
  have hread := Numeral.read?_word h
  rw [String.ofList_toList] at hread
  have hspecial := special?_isSome name.toList
  rw [String.ofList_toList, ← hread] at hspecial
  rw [← hspecial, Node.leaf]
  cases Numeral.read? name <;> simp

end Words

namespace Grammar

/-- A token is an operand, an operator or a function just as its node is. -/
theorem node_views (h : g.node t = .ok n) :
    n.isLeaf = g.isOperand t ∧ n.operator? = t.operator? ∧ n.function? = g.functionOf? t := by
  obtain ⟨ht, rfl⟩ | ⟨f, rfl, hf, rfl⟩ | ⟨o, rfl, rfl⟩ := node_cases h
  · have hnone : t.operator? = none ∧ g.functionOf? t = none := by
      cases t with
      | number text => exact ⟨rfl, rfl⟩
      | word text => exact ⟨rfl, isOperand_word.mp ht⟩
      | symbol s => cases ht
    rw [ht, hnone.1, hnone.2]
    rcases Node.leaf_cases t.text with ⟨x, hx⟩ | hx <;> rw [hx] <;> exact ⟨rfl, rfl, rfl⟩
  · have hword : g.isOperand (.word f.name) = false := by
      simp [isOperand, isFunction, hf]
    exact ⟨hword.symm, rfl, hf.symm⟩
  · exact ⟨rfl, rfl, rfl⟩

theorem leaves_eq (ho : Postfix.order? g tokens = some listing)
    (hm : listing.mapM g.node = .ok e.postorder) :
    e.leaves = (tokens.filter g.isOperand).map fun t => .leaf t.text := by
  have hleaves : (listing.filter g.isOperand).mapM g.node = .ok e.leaves := by
    rw [← e.filter_postorder]
    exact filter_mapM (fun t n hn => (node_views hn).1) hm
  rw [Postfix.filter_isOperand_order? ho] at hleaves
  have hmap : (tokens.filter g.isOperand).mapM g.node =
      .ok ((tokens.filter g.isOperand).map fun t => .leaf t.text) :=
    mapM_eq_map fun t ht => node_of_isOperand (List.mem_filter.mp ht).2
  exact Except.ok.inj (hleaves.symm.trans hmap)

/-- What is seen alike in tokens and nodes, and not in parentheses, is in the tree what it is in the
text. -/
theorem perm_filterMap_nodes {β : Type} {p : Node → Option β} {q : Token → Option β}
    (hpq : ∀ t n, g.node t = .ok n → p n = q t) (hq : ∀ t, Postfix.isParenthesis t → q t = none)
    (ho : Postfix.order? g tokens = some listing) (hm : listing.mapM g.node = .ok e.postorder) :
    (e.nodes.filterMap p).Perm (tokens.filterMap q) := by
  have hskip : (tokens.filter (!Postfix.isParenthesis ·)).filterMap q = tokens.filterMap q := by
    rw [List.filterMap_filter]
    refine List.filterMap_congr fun t _ => ?_
    cases ht : Postfix.isParenthesis t
    · rfl
    · exact (hq t ht).symm
  have hnodes : (e.nodes.filterMap p).Perm (listing.filterMap q) := by
    rw [← filterMap_mapM hpq hm]
    exact (e.perm_nodes.filterMap p).symm
  rw [← hskip]
  exact hnodes.trans ((Postfix.perm_of_order? ho).filterMap q)

/-- The variables of a tree are the names of its text that stand for nothing else. -/
theorem variableNames_eq_filterMap (hs : ∀ t ∈ tokens, Lexer.Spelled t)
    (hl : e.leaves = (tokens.filter g.isOperand).map fun t => .leaf t.text) :
    e.variableNames = (tokens.filterMap g.variableOf?).eraseDups := by
  rw [Expr.variableNames_eq, ← e.filterMap_leaves, hl, List.filterMap_map, List.filterMap_filter]
  refine congrArg List.eraseDups (List.filterMap_congr fun t ht => ?_)
  have hspelled := hs t ht
  cases t with
  | number text =>
    obtain ⟨x, -, hx⟩ := leaf_of_number hspelled
    simp [isOperand, variableOf?, Token.text, hx, Node.var?]
  | word text =>
    obtain ⟨hconst, hvar⟩ := leaf_of_word hspelled
    by_cases hnumber : NamesNumber text
    · obtain ⟨x, hx⟩ := hconst.mpr hnumber
      simp [variableOf?, Token.text, hnumber, hx, Node.var?]
    · cases hf : g.isFunction text <;>
        simp [isOperand, variableOf?, Token.text, hf, hnumber, hvar hnumber, Node.var?]
  | symbol s => rfl

/-- The leaves of a parsed tree are the operands of its text, in their order: numbers are constants,
and names are constants if they name a number and else the variables of those names. The operators
and functions of the tree are those of the text, each as often, and it has one leaf more than it has
operators. So its variables come as they first come in the text. -/
theorem parse_keeps_tokens (h : g.parse text = .ok e) :
    ∃ tokens, tokenize text = .ok tokens ∧
      e.leaves = (tokens.filter g.isOperand).map (fun t => .leaf t.text) ∧
      (∀ text, .number text ∈ tokens →
        ∃ x, Numeral.read? text = some x ∧ Node.leaf text = .const x) ∧
      (∀ name, .word name ∈ tokens →
        ((∃ x, Node.leaf name = .const x) ↔ NamesNumber name) ∧
        (¬ NamesNumber name → Node.leaf name = .var name)) ∧
      (e.nodes.filterMap Node.operator?).Perm (tokens.filterMap Token.operator?) ∧
      (e.nodes.filterMap Node.function?).Perm (tokens.filterMap g.functionOf?) ∧
      e.leaves.length = (e.nodes.filterMap Node.operator?).length + 1 ∧
      e.variableNames = (tokens.filterMap g.variableOf?).eraseDups := by
  obtain ⟨tokens, ht, hp⟩ := parse_eq_ok h
  obtain ⟨listing, ho, hm⟩ := parseTokens_eq_ok hp
  have hs := Lexer.spelled_of_tokenize ht
  have hl := leaves_eq ho hm
  have hnone : ∀ t, Postfix.isParenthesis t → t.operator? = none ∧ g.functionOf? t = none := by
    intro t hparenthesis
    unfold Postfix.isParenthesis at hparenthesis
    split at hparenthesis
    · exact ⟨rfl, rfl⟩
    · exact ⟨rfl, rfl⟩
    · cases hparenthesis
  refine ⟨tokens, ht, hl, ?_, ?_, ?_, ?_, ?_, variableNames_eq_filterMap hs hl⟩
  · intro text hmem
    exact leaf_of_number (hs _ hmem)
  · intro name hmem
    exact leaf_of_word (hs _ hmem)
  · refine perm_filterMap_nodes ?_ (fun t ht => (hnone t ht).1) ho hm
    exact fun t n hn => (node_views hn).2.1
  · refine perm_filterMap_nodes ?_ (fun t ht => (hnone t ht).2) ho hm
    exact fun t n hn => (node_views hn).2.2
  · rw [e.length_leaves, (e.perm_nodes.filterMap Node.operator?).length_eq]

/-- An operator after its operands, a function after its own, and names of numbers. -/
theorem parse_keeps_tokens_mixed :
    let e : Expr := .binary .sub (.var "y") (.binary .mul (.call .sin (.const (1 / 0))) (.var "x"))
    let tokens : List Token := [.word "y", .symbol (.operator .sub), .word "INF", .word "sin",
      .symbol (.operator .mul), .word "x"]
    ({} : Grammar).parse "y - INF sin * x" = .ok e ∧ tokenize "y - INF sin * x" = .ok tokens ∧
      e.leaves = [.leaf "y", .leaf "INF", .leaf "x"] ∧ e.variableNames = ["y", "x"] := by
  intro e tokens
  have h : ({} : Grammar).parse "y - INF sin * x" = .ok e := by decide +kernel
  have ht : tokenize "y - INF sin * x" = .ok tokens := by decide +kernel
  obtain ⟨tokens', ht', hl, -, -, -, -, -, hv⟩ := parse_keeps_tokens h
  obtain rfl := Except.ok.inj (ht.symm.trans ht')
  refine ⟨h, ht, ?_, ?_⟩
  · rw [hl]
    decide +kernel
  · rw [hv]
    decide +kernel

end Grammar

end Reckon
