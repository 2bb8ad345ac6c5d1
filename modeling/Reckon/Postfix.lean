import Reckon.Grammar
import Reckon.Token

/-!
From infix to postfix order. Operands go straight to the output; operators, functions and open
parentheses wait until the tokens after them show that their operands are complete.
-/
namespace Reckon.Postfix

/-- What waits for its operands, or for its closing parenthesis. -/
inductive Pending where
  | group
  | operator (o : Operator)
  | function (f : Func)
  deriving DecidableEq

/-- Both lists have their latest entry first. -/
structure State where
  output : List Token := []
  pending : List Pending := []
  deriving DecidableEq

namespace State

/-- Moves what waits inside the innermost open parenthesis to the output and closes it; a function
right before the parenthesis then has its operand. -/
def closeGroup (output : List Token) : List Pending → Option State
  | [] => none
  | .group :: .function f :: pending => some ⟨.word f.name :: output, pending⟩
  | .group :: pending => some ⟨output, pending⟩
  | .operator o :: pending => closeGroup (.symbol (.operator o) :: output) pending
  | .function f :: pending => closeGroup (.word f.name :: output) pending

/-- Moves to the output what binds its left operand before `o` does: functions, and operators at
least as strong as `o`. -/
def release (g : Grammar) (o : Operator) (output : List Token) : List Pending → State
  | .function f :: pending => release g o (.word f.name :: output) pending
  | .operator o' :: pending =>
    if g.precedence o ≤ g.precedence o' then
      release g o (.symbol (.operator o') :: output) pending
    else ⟨output, .operator o' :: pending⟩
  | pending => ⟨output, pending⟩

/-- The output in order, once all that waits has followed; none if a parenthesis is open. -/
def finish (output : List Token) : List Pending → Option (List Token)
  | [] => some output.reverse
  | .group :: _ => none
  | .operator o :: pending => finish (.symbol (.operator o) :: output) pending
  | .function f :: pending => finish (.word f.name :: output) pending

def emit (s : State) (t : Token) : State :=
  { s with output := t :: s.output }

def hold (s : State) (p : Pending) : State :=
  { s with pending := p :: s.pending }

/-- One more token; none for a closing parenthesis that has no partner. -/
def step (g : Grammar) (s : State) : Token → Option State
  | .number text => some (s.emit (.number text))
  | .word text =>
    match g.function? text with
    | some f => some (s.hold (.function f))
    | none => some (s.emit (.word text))
  | .symbol .opening => some (s.hold .group)
  | .symbol .closing => closeGroup s.output s.pending
  | .symbol (.operator o) => some ((release g o s.output s.pending).hold (.operator o))

end State

/-- Fails only on parentheses that do not match. -/
def order? (g : Grammar) (tokens : List Token) : Option (List Token) := do
  let s ← tokens.foldlM (State.step g) {}
  State.finish s.output s.pending

end Postfix

def Grammar.postfixOrder (g : Grammar) (tokens : List Token) : Except SyntaxFault (List Token) :=
  (Postfix.order? g tokens).elim (.error .mismatchedParentheses) .ok

end Reckon
