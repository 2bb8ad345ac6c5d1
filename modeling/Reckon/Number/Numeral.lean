import Reckon.Number.Decimal

/-!
Texts that stand for a number: decimals with an optional exponent, and the names of infinity and of
not-a-number in any letter case, each after an optional sign. Nothing else is allowed around them.
-/
namespace Reckon.Numeral

/-- Splits a leading sign off; the flag says whether it is a minus. -/
def splitSign : List Char → Bool × List Char
  | '-' :: cs => (true, cs)
  | '+' :: cs => (false, cs)
  | cs => (false, cs)

def special? (cs : List Char) : Option Float :=
  match String.ofList (cs.map Char.toLower) with
  | "inf" | "infinity" => some (1 / 0)
  | "nan" => some (0 / 0)
  | _ => none

/-- The text after a decimal's digits: nothing, or the mark of an exponent and a signed integer. -/
def exponent? : List Char → Option Int
  | [] => some 0
  | mark :: cs =>
    let (negative, ds) := splitSign cs
    if (mark == 'e' || mark == 'E') && !ds.isEmpty && ds.all Char.isDigit then
      some (if negative then -(digitsValue ds : Int) else digitsValue ds)
    else none

/-- Digits with an optional point among, before or after them, and an optional exponent. -/
def decimal? (cs : List Char) : Option Decimal :=
  let whole := cs.takeWhile Char.isDigit
  let (fraction, rest) :=
    match cs.dropWhile Char.isDigit with
    | '.' :: rest => (rest.takeWhile Char.isDigit, rest.dropWhile Char.isDigit)
    | rest => ([], rest)
  if whole.isEmpty && fraction.isEmpty then none
  else (exponent? rest).map fun e => ⟨digitsValue (whole ++ fraction), e - fraction.length⟩

/-- The double nearest to the number that a text stands for, if it stands for one. -/
def read? (text : String) : Option Float :=
  let (negative, cs) := splitSign text.toList
  let magnitude := (special? cs).orElse fun _ => (decimal? cs).map Decimal.toFloat
  magnitude.map fun x => if negative then -x else x

end Reckon.Numeral
