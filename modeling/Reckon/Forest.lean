import Reckon.Expr
import Reckon.Grammar
import Reckon.Token

/-!
Trees grown from a listing of their nodes in which operands come before what takes them. The trees
that still wait for a parent form the forest, the latest first.
-/
namespace Reckon

abbrev Forest := List Expr

namespace Forest

/-- A leaf is a new tree; a function or an operator takes the latest trees for its operands. -/
def grow : Forest → Node → Except SyntaxFault Forest
  | trees, .const x => .ok (.const x :: trees)
  | trees, .var name => .ok (.var name :: trees)
  | a :: trees, .function f => .ok (.call f a :: trees)
  | [], .function f => .error (.missingOperand f)
  | r :: l :: trees, .operator o => .ok (.binary o l r :: trees)
  | _, .operator o => .error (.missingOperands o)

/-- The one tree of the forest. -/
def single : Forest → Except SyntaxFault Expr
  | [e] => .ok e
  | [] => .error .emptyExpression
  | trees => .error (.surplusOperands trees.length)

/-- The tree that a listing of nodes ends in. -/
def latest (nodes : List Node) : Except SyntaxFault Expr := do
  match ← nodes.foldlM grow [] with
  | e :: _ => return e
  | [] => throw .emptyExpression

end Forest

namespace Grammar

variable (g : Grammar)

/-- The node that a token stands for in postfix order. Numbers, and names of no function, are
numbers if they read as such and variables otherwise. -/
def node : Token → Except SyntaxFault Node
  | .number text => .ok (.leaf text)
  | .word text => .ok ((g.function? text).elim (.leaf text) .function)
  | .symbol (.operator o) => .ok (.operator o)
  | .symbol s => .error (.strayParenthesis s.char)

/-- The tree whose nodes the tokens list in postfix order. -/
def build (tokens : List Token) : Except SyntaxFault Expr := do
  let trees ← tokens.foldlM (fun trees t => do Forest.grow trees (← g.node t)) []
  Forest.single trees

end Grammar

end Reckon
