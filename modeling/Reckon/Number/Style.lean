import Reckon.Number.Shortest

/-!
How numbers are written. Every style shows the shortest digits that read back as the number; the
styles differ in when an exponent appears and in how whole numbers end.
-/
namespace Reckon

structure NumberStyle where
  /-- Zero and the magnitudes from `low` up to, and not including, `high` have no exponent. -/
  low : Float
  high : Float
  /-- What follows the last digit of a whole number without exponent. -/
  wholeEnding : List Char
  /-- What stands before an exponent that is not negative. -/
  exponentPlus : List Char
  tie : HalfWay

namespace NumberStyle

/-- Values: never an exponent, and no fraction on whole numbers. -/
def plain : NumberStyle := ⟨0, 1 / 0, [], [], .toUpper⟩

/-- Constants of a formula: whole numbers end in `.0`, and exponents bear no plus sign. -/
def constant : NumberStyle := ⟨1e-4, 1e16, ['.', '0'], [], .toUpper⟩

/-- JSON: like constants, with other bounds and with a sign on every exponent. -/
def json : NumberStyle := ⟨1e-5, 1e16, ['.', '0'], ['+'], .toEven⟩

variable (s : NumberStyle)

/-- The digits `ds` times `10 ^ k`, without exponent. -/
def positional (ds : List Char) (k : Int) : List Char :=
  let whole := ds.length + k
  if 0 ≤ k then ds ++ List.replicate k.toNat '0' ++ s.wholeEnding
  else if 0 < whole then ds.take whole.toNat ++ '.' :: ds.drop whole.toNat
  else '0' :: '.' :: List.replicate (-whole).toNat '0' ++ ds

/-- The digits `ds` times `10 ^ k`, with one digit before the point and an exponent. -/
def scientific (ds : List Char) (k : Int) : List Char :=
  let e := k + ds.length - 1
  ds.take 1 ++ (if ds.length ≤ 1 then [] else '.' :: ds.drop 1) ++
    'e' :: (if 0 ≤ e then s.exponentPlus else ['-']) ++ Nat.toDigits 10 e.natAbs

def isPositional (x : Float) : Bool :=
  x == 0 || s.low ≤ x.abs && x.abs < s.high

def magnitude (x : Float) : List Char :=
  if x.isInf then ['i', 'n', 'f']
  else if x == 0 then s.positional ['0'] 0
  else
    let d := shortest s.tie x
    if s.isPositional x then s.positional d.digits d.exponent else s.scientific d.digits d.exponent

/-- The sign is that of the bits, so negative zero bears one; not-a-number bears none. -/
def write (x : Float) : String :=
  if x.isNaN then "NaN"
  else if x.toBits >>> 63 == 1 then String.ofList ('-' :: s.magnitude x)
  else String.ofList (s.magnitude x)

end NumberStyle

end Reckon
