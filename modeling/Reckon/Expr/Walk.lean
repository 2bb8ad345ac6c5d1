import Reckon.Expr

/-!
Walks over a tree: its nodes, its variables, and its text with every operation in parentheses.
Each keeps what it has still to visit in a list, so that a tree may be of any depth, and each has
beside it the listing by recursion that it produces.
-/
namespace Reckon.Expr

def totalSize : List Expr → Nat
  | [] => 0
  | e :: es => e.size + totalSize es

theorem totalSize_children (e : Expr) : totalSize e.children < e.size := by
  cases e <;> simp [totalSize, children, size]

theorem totalSize_append (es fs : List Expr) :
    totalSize (es ++ fs) = totalSize es + totalSize fs := by
  induction es with
  | nil => simp [totalSize]
  | cons e es ih =>
    simp only [List.cons_append, totalSize, ih]
    omega

/-- The nodes of the trees in `todo` after those already seen, which are listed last first. -/
def walk (seen : List Node) : List Expr → List Node
  | [] => seen.reverse
  | e :: todo => walk (e.root :: seen) (e.children ++ todo)
termination_by todo => totalSize todo
decreasing_by
  rw [totalSize_append, totalSize]
  exact Nat.add_lt_add_right (totalSize_children e) _

/-- Each node before the nodes below it, and those from left to right. -/
def nodes (e : Expr) : List Node :=
  walk [] [e]

def preorder : Expr → List Node
  | const x => [.const x]
  | var name => [.var name]
  | call f a => .function f :: a.preorder
  | binary o l r => .operator o :: l.preorder ++ r.preorder

/-- Each node after the nodes below it. -/
def postorder : Expr → List Node
  | const x => [.const x]
  | var name => [.var name]
  | call f a => a.postorder ++ [.function f]
  | binary o l r => l.postorder ++ r.postorder ++ [.operator o]

/-- The names of the variables, each where it first occurs from left to right. -/
def variableNames (e : Expr) : List String :=
  (e.nodes.filterMap Node.var?).eraseDups

/-- The names on the variable leaves from left to right. -/
def leafNames : Expr → List String
  | const _ => []
  | var name => [name]
  | call _ a => a.leafNames
  | binary _ l r => l.leafNames ++ r.leafNames

/-- What a text has still to show: a tree, or characters between trees. -/
inductive Piece where
  | tree (e : Expr)
  | mark (text : String)

namespace Piece

def weight : Piece → Nat
  | tree e => 4 * e.size
  | mark _ => 1

/-- A leaf as its text, and any other tree as the marks and trees that it is written by. -/
def parts : Expr → List Piece
  | const x => [mark (Node.const x).text]
  | var name => [mark name]
  | call f a => [mark (f.name ++ "("), tree a, mark ")"]
  | binary o l r => [mark "(", tree l, mark (" " ++ o.symbol.toString ++ " "), tree r, mark ")"]

def totalWeight : List Piece → Nat
  | [] => 0
  | p :: ps => p.weight + totalWeight ps

theorem totalWeight_parts (e : Expr) : totalWeight (parts e) < (tree e).weight := by
  cases e <;> simp [parts, totalWeight, weight, size] <;> omega

theorem totalWeight_append (ps qs : List Piece) :
    totalWeight (ps ++ qs) = totalWeight ps + totalWeight qs := by
  induction ps with
  | nil => simp [totalWeight]
  | cons p ps ih =>
    simp only [List.cons_append, totalWeight, ih]
    omega

end Piece

/-- The text of the pieces in `todo` after what is already written. -/
def write (out : String) : List Piece → String
  | [] => out
  | .mark text :: todo => write (out ++ text) todo
  | .tree e :: todo => write out (Piece.parts e ++ todo)
termination_by todo => Piece.totalWeight todo
decreasing_by
  · simp [Piece.totalWeight, Piece.weight]
  · rw [Piece.totalWeight_append, Piece.totalWeight]
    exact Nat.add_lt_add_right (Piece.totalWeight_parts e) _

def render (e : Expr) : String :=
  write "" [.tree e]

/-- The same text by recursion. -/
def text : Expr → String
  | const x => (Node.const x).text
  | var name => name
  | call f a => f.name ++ "(" ++ a.text ++ ")"
  | binary o l r => "(" ++ l.text ++ " " ++ o.symbol.toString ++ " " ++ r.text ++ ")"

end Reckon.Expr
