import Mathlib.Tactic.Common
import Reckon.Expr.Walk

/-! What the walks over a tree produce, by recursion. -/
namespace Reckon.Expr

theorem walk_eq (seen : List Node) (todo : List Expr) :
    walk seen todo = seen.reverse ++ todo.flatMap preorder := by
  fun_induction walk seen todo with
  | case1 seen => simp
  | case2 seen e todo ih =>
    rw [ih]
    cases e <;> simp [root, children, preorder]

theorem nodes_eq_preorder (e : Expr) : e.nodes = e.preorder := by
  simp [nodes, walk_eq]

theorem filterMap_preorder (e : Expr) : e.preorder.filterMap Node.var? = e.leafNames := by
  induction e with
  | const x => rfl
  | var name => rfl
  | call f a ih => simp [preorder, leafNames, List.filterMap_cons, Node.var?, ih]
  | binary o l r ihl ihr =>
    simp [preorder, leafNames, List.filterMap_cons, Node.var?, ihl, ihr]

theorem variableNames_eq (e : Expr) : e.variableNames = e.leafNames.eraseDups := by
  rw [variableNames, nodes_eq_preorder, filterMap_preorder]

theorem mem_variableNames {e : Expr} {name : String} :
    name ∈ e.variableNames ↔ name ∈ e.leafNames := by
  simp [variableNames_eq]

/-- What a piece is written as. -/
def Piece.text : Piece → String
  | tree e => e.text
  | mark text => text

@[simp] theorem Piece.text_tree (e : Expr) : (tree e).text = e.text := rfl

@[simp] theorem Piece.text_mark (text : String) : (mark text).text = text := rfl

theorem toList_parts (e : Expr) :
    (Piece.parts e).flatMap (·.text.toList) = e.text.toList := by
  cases e <;> simp [Piece.parts, Expr.text]

theorem toList_write (out : String) (todo : List Piece) :
    (write out todo).toList = out.toList ++ todo.flatMap (·.text.toList) := by
  fun_induction write out todo with
  | case1 out => simp
  | case2 out text todo ih => simp [ih]
  | case3 out e todo ih => simp [ih, toList_parts]

theorem render_eq_text (e : Expr) : e.render = e.text := by
  apply String.toList_injective
  simp [render, toList_write]

end Reckon.Expr
