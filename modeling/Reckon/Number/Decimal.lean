/-!
Decimals: a coefficient times a power of ten, and the double nearest to it.
-/
namespace Reckon

/-- The number `coefficient · 10 ^ exponent`. -/
structure Decimal where
  coefficient : Nat
  exponent : Int
  deriving DecidableEq

/-- The number that a run of decimal digits stands for. -/
def digitsValue (ds : List Char) : Nat :=
  ds.foldl (fun n d => 10 * n + (d.toNat - '0'.toNat)) 0

namespace Decimal

/-- The nearest double, a half going to the even neighbour; infinity past the largest one. -/
def toFloat (d : Decimal) : Float :=
  .ofModel (.ofScientific d.coefficient d.exponent)

/-- The coefficient's digits. -/
def digits (d : Decimal) : List Char :=
  Nat.toDigits 10 d.coefficient

end Decimal

end Reckon
