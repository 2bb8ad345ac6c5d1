/-!
The four binary operators and the three functions of a formula, with the names they are written by.
-/
namespace Reckon

inductive Operator where
  | add
  | sub
  | mul
  | div
  deriving DecidableEq

namespace Operator

def all : List Operator := [.add, .sub, .mul, .div]

def symbol : Operator → Char
  | .add => '+'
  | .sub => '-'
  | .mul => '*'
  | .div => '/'

def ofSymbol? (c : Char) : Option Operator :=
  all.find? (·.symbol == c)

/-- How strongly an operator binds unless the grammar says otherwise. -/
def defaultPrecedence : Operator → Nat
  | .add | .sub => 2
  | .mul | .div => 3

@[simp] theorem ofSymbol?_symbol (o : Operator) : ofSymbol? o.symbol = some o := by
  cases o <;> rfl

theorem symbol_of_ofSymbol? {c : Char} {o : Operator} (h : ofSymbol? c = some o) :
    o.symbol = c := by
  simpa using List.find?_some h

end Operator

inductive Func where
  | sqrt
  | sin
  | cos
  deriving DecidableEq

namespace Func

def all : List Func := [.sqrt, .sin, .cos]

def name : Func → String
  | .sqrt => "sqrt"
  | .sin => "sin"
  | .cos => "cos"

def ofName? (name : String) : Option Func :=
  all.find? (·.name == name)

@[simp] theorem ofName?_name (f : Func) : ofName? f.name = some f := by
  cases f <;> rfl

theorem name_of_ofName? {name : String} {f : Func} (h : ofName? name = some f) :
    f.name = name := by
  simpa using List.find?_some h

end Func

end Reckon
