import Reckon.Error
import Reckon.Number.Style

/-!
Values: a number, or a column of numbers. `zipWith` combines two of them with broadcasting, where a
number or a column of one stretches to the length of the other operand.
-/
namespace Reckon

inductive Value where
  | scalar (x : Float)
  | array (xs : List Float)
  deriving DecidableEq

namespace Value

/-- A scalar counts as one element. -/
def size : Value → Nat
  | scalar _ => 1
  | array xs => xs.length

/-- The numbers in order, of a scalar the one. -/
def elements : Value → List Float
  | scalar x => [x]
  | array xs => xs

def isScalar : Value → Bool
  | scalar _ => true
  | array _ => false

def scalar? : Value → Option Float
  | scalar x => some x
  | array _ => none

def array? : Value → Option (List Float)
  | scalar _ => none
  | array xs => some xs

def map (f : Float → Float) : Value → Value
  | scalar x => scalar (f x)
  | array xs => array (xs.map f)

/-- Exactly `n` elements. -/
def broadcast (n : Nat) : Value → Except Error (List Float)
  | scalar x => .ok (List.replicate n x)
  | array xs =>
    if xs.length = n then .ok xs
    else match xs with
      | [x] => .ok (List.replicate n x)
      | xs => .error (.shapeMismatch xs.length n)

def zipWith (f : Float → Float → Float) : Value → Value → Except Error Value
  | scalar x, scalar y => .ok (scalar (f x y))
  | scalar x, array ys => .ok (array (ys.map (f x)))
  | array xs, scalar y => .ok (array (xs.map (f · y)))
  | array xs, array ys =>
    if xs.length = ys.length then .ok (array (xs.zipWith f ys))
    else match xs, ys with
      | [x], ys => .ok (array (ys.map (f x)))
      | xs, [y] => .ok (array (xs.map (f · y)))
      | xs, ys => .error (.shapeMismatch xs.length ys.length)

/-- The pairs of elements that `zipWith` combines. -/
def pairs : Value → Value → List (Float × Float)
  | scalar x, scalar y => [(x, y)]
  | scalar x, array ys => ys.map (x, ·)
  | array xs, scalar y => xs.map (·, y)
  | array xs, array ys =>
    if xs.length = ys.length then xs.zip ys
    else match xs, ys with
      | [x], ys => ys.map (x, ·)
      | xs, [y] => xs.map (·, y)
      | _, _ => []

/-- Equality of the numbers as numbers: the zeros are one, and not-a-number differs from itself. -/
def same : Value → Value → Bool
  | scalar x, scalar y => x == y
  | array xs, array ys => xs == ys
  | _, _ => false

def display : Value → String
  | scalar x => NumberStyle.plain.write x
  | array xs => "[" ++ ", ".intercalate (xs.map NumberStyle.plain.write) ++ "]"

end Value

/-- What the variables of a formula stand for. An earlier pair hides a later one of its name. -/
abbrev Bindings := List (String × Value)

end Reckon
