import Reckon.Value

/-!
What the operators and functions do to numbers, and elementwise to values. A divisor is kept away
from zero and a square root from negative numbers, so neither makes a not-a-number of its own.
-/
namespace Reckon

/-- A divisor of magnitude under `ε` becomes `ε`, with the divisor's sign if it is below zero. -/
def guardDivisor (ε d : Float) : Float :=
  if d.abs < ε then if d < 0 then -ε else ε else d

def divide (ε n d : Float) : Float :=
  n / guardDivisor ε d

namespace Operator

def eval (ε : Float) : Operator → Float → Float → Float
  | add, x, y => x + y
  | sub, x, y => x - y
  | mul, x, y => x * y
  | div, x, y => divide ε x y

def apply (ε : Float) (o : Operator) (l r : Value) : Except Error Value :=
  l.zipWith (o.eval ε) r

end Operator

namespace Func

/-- The sine of a zero is that zero and its cosine is one, whatever the sign. -/
def eval : Func → Float → Float
  | sqrt, x => if x < 0 then 0 else x.sqrt
  | sin, x => if x == 0 then x else x.sin
  | cos, x => if x == 0 then 1 else x.cos

def apply (f : Func) (v : Value) : Value :=
  v.map f.eval

end Func

end Reckon
