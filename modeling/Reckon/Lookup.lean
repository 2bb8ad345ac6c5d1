import Reckon.Error
import Reckon.Token

/-!
Operators, functions and symbols by the text that they are written by.
-/
namespace Reckon

def Operator.ofText (text : String) : Except SyntaxFault Operator :=
  match text.toList with
  | [c] => (ofSymbol? c).elim (.error (.unknownOperator text)) .ok
  | _ => .error (.unknownOperator text)

def Func.ofText (text : String) : Except SyntaxFault Func :=
  (ofName? text).elim (.error (.unknownFunction text)) .ok

/-- A symbol is a token, so a text that is none is an invalid token. -/
def Symbol.ofText (text : String) : Except Error Symbol :=
  match text.toList with
  | [c] => (ofChar? c).elim (.error (.invalidToken text)) .ok
  | _ => .error (.invalidToken text)

end Reckon
