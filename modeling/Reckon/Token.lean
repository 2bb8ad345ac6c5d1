import Reckon.Operator

/-!
The words of a formula: numbers and names, kept as they are written, parentheses and operators.
-/
namespace Reckon

inductive Symbol where
  | opening
  | closing
  | operator (o : Operator)
  deriving DecidableEq

namespace Symbol

def char : Symbol → Char
  | opening => '('
  | closing => ')'
  | operator o => o.symbol

def operator? : Symbol → Option Operator
  | operator o => some o
  | _ => none

def ofChar? : Char → Option Symbol
  | '(' => some opening
  | ')' => some closing
  | c => (Operator.ofSymbol? c).map operator

end Symbol

inductive Token where
  | number (text : String)
  | word (text : String)
  | symbol (s : Symbol)
  deriving DecidableEq

def Token.text : Token → String
  | number text => text
  | word text => text
  | symbol s => s.char.toString

end Reckon
