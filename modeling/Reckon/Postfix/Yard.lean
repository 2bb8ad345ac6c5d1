import Reckon.Postfix

/-!
The translation to postfix order with the tokens themselves on its stack. Nothing but the course of
the translation keeps operands and closing parentheses off it.
-/
namespace Reckon.Postfix

/-- Both lists have their latest entry first. -/
structure Yard where
  output : List Token := []
  stack : List Token := []
  deriving DecidableEq

namespace Yard

def emit (y : Yard) (t : Token) : Yard :=
  { y with output := t :: y.output }

def push (y : Yard) (t : Token) : Yard :=
  { y with stack := t :: y.stack }

/-- Moves all above the innermost open parenthesis to the output, and drops the parenthesis. -/
def unwind (output : List Token) : List Token → Option Yard
  | [] => none
  | .symbol .opening :: stack => some ⟨output, stack⟩
  | t :: stack => unwind (t :: output) stack

/-- Moves a function on the top of the stack to the output. -/
def settle (g : Grammar) (y : Yard) : Yard :=
  match y.stack with
  | .word name :: stack => if g.isFunction name then ⟨.word name :: y.output, stack⟩ else y
  | _ => y

/-- Whether the top of the stack goes to the output before `o` is pushed. A name there passes for a
function, whatever it is. -/
def popsBefore (g : Grammar) (o : Operator) : List Token → Bool
  | .word _ :: _ => true
  | .symbol s :: _ => s.operator?.any (g.precedence o ≤ g.precedence ·)
  | _ => false

def release (g : Grammar) (o : Operator) (output : List Token) : List Token → Yard
  | [] => ⟨output, []⟩
  | t :: stack =>
    if popsBefore g o (t :: stack) then release g o (t :: output) stack else ⟨output, t :: stack⟩

/-- One more token; none for a closing parenthesis that has no partner. -/
def step (g : Grammar) (y : Yard) : Token → Option Yard
  | .number text => some (y.emit (.number text))
  | .word name =>
    if g.isFunction name then some (y.push (.word name)) else some (y.emit (.word name))
  | .symbol .opening => some (y.push (.symbol .opening))
  | .symbol .closing => (unwind y.output y.stack).map (settle g)
  | .symbol (.operator o) => some ((release g o y.output y.stack).push (.symbol (.operator o)))

/-- The output in order, once the stack has followed; none if a parenthesis is left on it. -/
def finish (output : List Token) : List Token → Option (List Token)
  | [] => some output.reverse
  | .symbol .opening :: _ | .symbol .closing :: _ => none
  | t :: stack => finish (t :: output) stack

def order? (g : Grammar) (tokens : List Token) : Option (List Token) := do
  let y ← tokens.foldlM (step g) {}
  finish y.output y.stack

end Yard

/-- The token that an entry came as. -/
def Pending.token : Pending → Token
  | group => .symbol .opening
  | operator o => .symbol (.operator o)
  | function f => .word f.name

/-- The same state with what waits as tokens. -/
def State.yard (s : State) : Yard :=
  ⟨s.output, s.pending.map Pending.token⟩

end Reckon.Postfix
