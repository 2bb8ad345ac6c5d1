import Mathlib.Tactic.Common
import Reckon.Expr.Walk
import Reckon.Grammar
import Reckon.Token

/-!
Formulas as sequences of tokens. A formula is one operand or two formulas with an operator between
them; an operand is a number, a name of no function, a function before an operand, or a formula in
parentheses. The same tokens come from many formulas, of which one follows the precedences.
-/
namespace Reckon

mutual

inductive Operand (g : Grammar) where
  | number (text : String)
  | name (text : String) (free : g.function? text = none)
  | apply (f : Func) (known : g.function? f.name = some f) (a : Operand g)
  | group (e : Formula g)

inductive Formula (g : Grammar) where
  | operand (a : Operand g)
  | binary (o : Operator) (left right : Formula g)

end

variable {g : Grammar}

mutual

def Operand.tokens : Operand g → List Token
  | .number text => [.number text]
  | .name text _ => [.word text]
  | .apply f _ a => .word f.name :: a.tokens
  | .group e => .symbol .opening :: e.tokens ++ [.symbol .closing]

def Formula.tokens : Formula g → List Token
  | .operand a => a.tokens
  | .binary o l r => l.tokens ++ .symbol (.operator o) :: r.tokens

end

/-- The leaf of a number or name. -/
def Expr.leaf (text : String) : Expr :=
  (Numeral.read? text).elim (var text) const

mutual

def Operand.expr : Operand g → Expr
  | .number text => .leaf text
  | .name text _ => .leaf text
  | .apply f _ a => .call f a.expr
  | .group e => e.expr

/-- The tree of a formula, without its parentheses. -/
def Formula.expr : Formula g → Expr
  | .operand a => a.expr
  | .binary o l r => .binary o l.expr r.expr

end

mutual

def Operand.listing : Operand g → List Token
  | .number text => [.number text]
  | .name text _ => [.word text]
  | .apply f _ a => a.listing ++ [.word f.name]
  | .group e => e.listing

/-- The tokens of the tree's nodes in postorder. -/
def Formula.listing : Formula g → List Token
  | .operand a => a.listing
  | .binary o l r => l.listing ++ r.listing ++ [.symbol (.operator o)]

end

/-- The operator of a formula that is no single operand. -/
def Formula.root? : Formula g → Option Operator
  | operand _ => none
  | binary o _ _ => some o

mutual

def Operand.Ordered : Operand g → Prop
  | .number _ => True
  | .name _ _ => True
  | .apply _ _ a => a.Ordered
  | .group e => e.Ordered

/-- At each operator, what stands to its left without parentheses binds as strongly or more, and
what stands to its right binds more strongly. -/
def Formula.Ordered : Formula g → Prop
  | .operand a => a.Ordered
  | .binary o l r => l.Ordered ∧ r.Ordered ∧
    (∀ p ∈ l.root?, g.precedence o ≤ g.precedence p) ∧
    (∀ p ∈ r.root?, g.precedence o < g.precedence p)

end

namespace Formula

variable {o : Operator} {a : Operand g}

/-- One more operator and operand at the end of an ordered formula. -/
def append (o : Operator) (a : Operand g) : Formula g → Formula g
  | operand b => binary o (operand b) (operand a)
  | binary p l r =>
    if g.precedence o ≤ g.precedence p then binary o (binary p l r) (operand a)
    else binary p l (append o a r)

/-- One more operator and formula at the end of an ordered formula. -/
def join (l : Formula g) (o : Operator) : Formula g → Formula g
  | operand a => l.append o a
  | binary p r r' => join (join l o r) p r'

@[simp] theorem tokens_append (o : Operator) (a : Operand g) (e : Formula g) :
    (e.append o a).tokens = e.tokens ++ .symbol (.operator o) :: a.tokens := by
  fun_induction append o a e with
  | case1 b => simp [tokens]
  | case2 p l r h => simp [tokens]
  | case3 p l r h ih => simp [tokens, ih]

@[simp] theorem tokens_join (l : Formula g) (o : Operator) (r : Formula g) :
    (l.join o r).tokens = l.tokens ++ .symbol (.operator o) :: r.tokens := by
  fun_induction join l o r with
  | case1 l o a => simp [tokens]
  | case2 l o p r r' ih₁ ih₂ => simp [tokens, ih₁, ih₂]

theorem root_append (o : Operator) (a : Operand g) (e : Formula g) :
    (e.append o a).root? = some o ∨ (e.append o a).root? = e.root? := by
  fun_cases append o a e <;> simp [root?]

theorem ordered_append (ha : a.Ordered) {e : Formula g} (he : e.Ordered) :
    (e.append o a).Ordered := by
  fun_induction append o a e with
  | case1 b => simp_all [Ordered, root?]
  | case2 p l r h => simp_all [Ordered, root?]
  | case3 p l r h ih =>
    obtain ⟨hl, hr, hlp, hrp⟩ := he
    refine ⟨hl, ih hr, hlp, ?_⟩
    rcases root_append o a r with hroot | hroot <;> rw [hroot]
    · simpa using h
    · exact hrp

theorem ordered_join {l r : Formula g} (hl : l.Ordered) (hr : r.Ordered) :
    (l.join o r).Ordered := by
  fun_induction join l o r with
  | case1 l o a => exact ordered_append hr hl
  | case2 l o p r r' ih₁ ih₂ => exact ih₂ (ih₁ hl hr.1) hr.2.1

end Formula

mutual

def Operand.arrange : Operand g → Operand g
  | .number text => .number text
  | .name text free => .name text free
  | .apply f known a => .apply f known a.arrange
  | .group e => .group e.arrange

/-- The formula of the same tokens that follows the precedences. -/
def Formula.arrange : Formula g → Formula g
  | .operand a => .operand a.arrange
  | .binary o l r => l.arrange.join o r.arrange

end

mutual

theorem Operand.tokens_arrange (a : Operand g) : a.arrange.tokens = a.tokens := by
  cases a with
  | number | name => rfl
  | apply f _ a => simp [Operand.arrange, Operand.tokens, a.tokens_arrange]
  | group e => simp [Operand.arrange, Operand.tokens, e.tokens_arrange]

theorem Formula.tokens_arrange (e : Formula g) : e.arrange.tokens = e.tokens := by
  cases e with
  | operand a => simp [Formula.arrange, Formula.tokens, a.tokens_arrange]
  | binary o l r => simp [Formula.arrange, Formula.tokens, l.tokens_arrange, r.tokens_arrange]

end

mutual

theorem Operand.ordered_arrange (a : Operand g) : a.arrange.Ordered := by
  cases a with
  | number | name => trivial
  | apply f _ a => exact a.ordered_arrange
  | group e => exact e.ordered_arrange

theorem Formula.ordered_arrange (e : Formula g) : e.arrange.Ordered := by
  cases e with
  | operand a => exact a.ordered_arrange
  | binary o l r => exact Formula.ordered_join l.ordered_arrange r.ordered_arrange

end

theorem Expr.postorder_leaf (text : String) : (Expr.leaf text).postorder = [Node.leaf text] := by
  cases h : Numeral.read? text <;> simp [Expr.leaf, Node.leaf, h, Expr.postorder]

end Reckon
