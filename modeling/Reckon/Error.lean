import Reckon.Operator
import Reckon.Text.Quoted

/-!
What can go wrong with a formula: one constructor for each cause, and the wording in one place.
-/
namespace Reckon

/-- Why a sequence of tokens, or a name in it, makes no formula. -/
inductive SyntaxFault where
  | mismatchedParentheses
  | missingOperand (f : Func)
  | missingOperands (o : Operator)
  | strayParenthesis (c : Char)
  | emptyExpression
  | surplusOperands (count : Nat)
  | unknownOperator (text : String)
  | unknownFunction (text : String)
  /-- A fault that a caller found and describes itself. -/
  | other (detail : String)
  deriving DecidableEq

def SyntaxFault.message : SyntaxFault → String
  | mismatchedParentheses => "mismatched parentheses"
  | missingOperand f => s!"function {f.name} without operand"
  | missingOperands o => s!"operator {o.symbol} without two operands"
  | strayParenthesis c => s!"unexpected {c} in postfix"
  | emptyExpression => "empty expression"
  | surplusOperands count =>
    s!"invalid expression: {count} operands left without an operator"
  | unknownOperator text => "unknown operator " ++ Text.quoted text
  | unknownFunction text => "unknown function " ++ Text.quoted text
  | other detail => detail

inductive Error where
  /-- The text holds something that is no token. -/
  | invalidToken (text : String)
  | malformed (fault : SyntaxFault)
  | unboundVariable (name : String)
  /-- A node does not have the operands that it takes, or the root has no value in the end. -/
  | unknownNode (name : String)
  | shapeMismatch (left right : Nat)
  deriving DecidableEq

namespace Error

def message : Error → String
  | invalidToken text => "Invalid token in expression: " ++ Text.quoted text
  | malformed fault => "Syntax error: " ++ fault.message
  | unboundVariable name => "Variable " ++ Text.quoted name ++ " not provided"
  | unknownNode name => "Unknown node " ++ name
  | shapeMismatch left right => s!"Cannot broadcast arrays of length {left} and {right}"

/-- Whether the formula or its bindings are to blame, and not the evaluator itself. -/
def isInputError : Error → Bool
  | unknownNode _ => false
  | _ => true

end Error

end Reckon
