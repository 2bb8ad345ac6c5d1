import Reckon.Number.Decimal

/-!
The shortest decimal of a double: of the decimals that read back as it, one of fewest digits, and of
those the nearest. A decimal of `n` digits is a multiple of a power of ten, and the fewer the digits
the larger the power, so the powers are tried from above.
-/
namespace Reckon

/-- Where a double exactly half-way between two decimals goes. -/
inductive HalfWay where
  | toUpper
  | toEven
  deriving DecidableEq

/-- A positive rational, to be approximated by decimals. -/
structure Ratio where
  num : Nat
  den : Nat

/-- The magnitude of a finite double. Its significand and exponent are the two lower fields of its
bits; the smallest exponent is shared by the doubles without a leading one. -/
def Ratio.ofFloat (x : Float) : Ratio :=
  let bits := x.toBits.toNat
  let fraction := bits % Nat.pow 2 52
  let exponent := bits / Nat.pow 2 52 % Nat.pow 2 11
  let significand := if exponent = 0 then fraction else fraction + Nat.pow 2 52
  let shift := exponent - 1
  ⟨significand * Nat.pow 2 (shift - 1074), Nat.pow 2 (1074 - shift)⟩

namespace Shortest

/-- Of the two multiples of `10 ^ k` around `x`, the nearer one that reads back as `x`, if any. -/
def onGrid? (tie : HalfWay) (x : Float) (r : Ratio) (k : Int) : Option Decimal :=
  let num := r.num * Nat.pow 10 (-k).toNat
  let den := r.den * Nat.pow 10 k.toNat
  let below : Decimal := ⟨num / den, k⟩
  let above : Decimal := ⟨num / den + 1, k⟩
  let rest := 2 * (num % den)
  let preferAbove := den < rest || den == rest && (tie == .toUpper || below.coefficient % 2 == 1)
  let (first, second) := if preferAbove then (above, below) else (below, above)
  if first.toFloat == x then some first
  else if second.toFloat == x then some second
  else none

/-- The grids from `10 ^ k` downwards, so that the first hit has fewest digits. A double is itself a
multiple of `2 ^ -1074`, hence of `10 ^ -1074`. -/
def search (tie : HalfWay) (x : Float) (r : Ratio) : Nat → Int → Decimal
  | 0, _ => ⟨r.num * Nat.pow 10 1074 / r.den, -1074⟩
  | steps + 1, k => (onGrid? tie x r k).getD (search tie x r steps (k - 1))

end Shortest

/-- The decimal of fewest digits that reads back as the magnitude of `x`, and of those the nearest.
The first power of ten is above the magnitude; seventeen digits identify a double, so twenty powers
are enough. -/
def shortest (tie : HalfWay) (x : Float) : Decimal :=
  let r := Ratio.ofFloat x
  let magnitude : Int := r.num.log2 - r.den.log2
  Shortest.search tie x.abs r 20 (magnitude * 30103 / 100000 + 1)

end Reckon
