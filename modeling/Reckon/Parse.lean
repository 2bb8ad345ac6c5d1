import Reckon.Forest
import Reckon.Postfix
import Reckon.Token.Lexer

/-!
Reading a formula: its tokens, their postfix order, and the tree that this order lists.
-/
namespace Reckon.Grammar

variable (g : Grammar)

def parseTokens (tokens : List Token) : Except SyntaxFault Expr := do
  g.build (← g.postfixOrder tokens)

def parse (text : String) : Except Error Expr := do
  (g.parseTokens (← tokenize text)).mapError .malformed

end Reckon.Grammar
