import Reckon.Number.Numeral
import Reckon.Number.Style
import Reckon.Operator

/-!
Formulas as trees, and the nodes that trees are made of.
-/
namespace Reckon

inductive Expr where
  | const (x : Float)
  | var (name : String)
  | call (f : Func) (argument : Expr)
  | binary (o : Operator) (left right : Expr)
  deriving DecidableEq

/-- A node of a tree without the trees below it. -/
inductive Node where
  | const (x : Float)
  | var (name : String)
  | function (f : Func)
  | operator (o : Operator)
  deriving DecidableEq

namespace Node

def text : Node → String
  | const x => NumberStyle.constant.write x
  | var name => name
  | function f => f.name
  | operator o => o.symbol.toString

/-- The number that a text stands for, or else the variable of that name. -/
def leaf (text : String) : Node :=
  (Numeral.read? text).elim (var text) const

def var? : Node → Option String
  | var name => some name
  | _ => none

end Node

namespace Expr

def root : Expr → Node
  | const x => .const x
  | var name => .var name
  | call f _ => .function f
  | binary o _ _ => .operator o

def children : Expr → List Expr
  | const _ | var _ => []
  | call _ a => [a]
  | binary _ l r => [l, r]

def isLeaf (e : Expr) : Bool :=
  e.children.isEmpty

/-- Equality of trees whose constants are compared as numbers: the zeros are one, and not-a-number
differs from itself. -/
def same : Expr → Expr → Bool
  | const x, const y => x == y
  | var m, var n => m == n
  | call f a, call g b => f == g && a.same b
  | binary o l r, binary p l' r' => o == p && l.same l' && r.same r'
  | _, _ => false

/-- The number of nodes. -/
def size : Expr → Nat
  | const _ | var _ => 1
  | call _ a => a.size + 1
  | binary _ l r => l.size + r.size + 1

end Expr

end Reckon
