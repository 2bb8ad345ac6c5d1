import Mathlib.Data.Finset.Basic
import Reckon.Proofs.Distinct
import Reckon.Proofs.Walk

/-!
The walks over a tree turn by turn, with a stack for all that is still to do. Main statement: after
as many turns as the tree tells beforehand the stack is empty, and what the walk has listed or
written is what the recursion gives.
-/
namespace Reckon.Expr

def left? : Expr → Option Expr
  | call _ a => some a
  | binary _ l _ => some l
  | _ => none

def right? : Expr → Option Expr
  | binary _ _ r => some r
  | _ => none

/-- A search for the names of the variables, which are listed in the order they are found. -/
structure Search where
  stack : List Expr
  seen : Finset String
  names : List String

namespace Search

def push (s : Search) (e : Option Expr) : Search :=
  { s with stack := e.toList ++ s.stack }

def note (s : Search) (name : String) : Search :=
  if name ∈ s.seen then s
  else { s with seen := insert name s.seen, names := s.names ++ [name] }

/-- Takes the top of the stack, if there is one. What is right goes on the stack first, so that what
is left comes off first. -/
def turn (s : Search) : Search :=
  match s.stack with
  | [] => s
  | e :: stack =>
    let s := { s with stack }
    ((e.root.var?.elim s s.note).push e.right?).push e.left?

/-- The search that has met these names, some of them more than once. -/
def after (stack : List Expr) (met : List String) : Search :=
  ⟨stack, met.toFinset, met.eraseDups⟩

theorem note_after (stack : List Expr) (met : List String) (name : String) :
    (after stack met).note name = after stack (met ++ [name]) := by
  have hnames : (met ++ [name]).eraseDups = met.eraseDups ++ [name].removeAll met := by
    rw [List.eraseDups_append]
    by_cases hm : name ∈ met <;> simp [List.removeAll, List.eraseDups_cons, hm]
  have hseen : (met ++ [name]).toFinset = insert name met.toFinset := by
    ext m
    simp only [List.mem_toFinset, List.mem_append, List.mem_singleton, Finset.mem_insert]
    exact or_comm
  by_cases hm : name ∈ met
  · have hmem : name ∈ met.toFinset := List.mem_toFinset.mpr hm
    simp [note, after, hnames, hseen, hm, List.removeAll, Finset.insert_eq_of_mem hmem]
  · simp [note, after, hnames, hseen, hm, List.removeAll]

theorem turn_after (e : Expr) (stack : List Expr) (met : List String) :
    turn (after (e :: stack) met) =
      after (e.left?.toList ++ (e.right?.toList ++ stack)) (met ++ e.root.var?.toList) := by
  cases e with
  | var name => exact note_after stack met name
  | const x => simp [turn, after, push, left?, right?, root, Node.var?]
  | call f a => simp [turn, after, push, left?, right?, root, Node.var?]
  | binary o l r => simp [turn, after, push, left?, right?, root, Node.var?]

/-- The trees below are left alone until the top one is done. -/
theorem iterate_turn (e : Expr) (stack : List Expr) (met : List String) :
    turn^[e.size] (after (e :: stack) met) = after stack (met ++ e.leafNames) := by
  induction e generalizing stack met with
  | const x => simp [size, turn_after, left?, right?, root, Node.var?, leafNames]
  | var name => simp [size, turn_after, left?, right?, root, Node.var?, leafNames]
  | call f a ih =>
    rw [size, Function.iterate_succ_apply, turn_after]
    simpa [left?, right?, root, Node.var?, leafNames] using ih stack met
  | binary o l r ihl ihr =>
    rw [size, Function.iterate_succ_apply, turn_after, Nat.add_comm, Function.iterate_add_apply]
    simp [left?, right?, root, Node.var?, leafNames, ihl, ihr]

end Search

/-- What a text has still to show: a tree, a node of it, or characters. -/
inductive Fragment where
  | tree (e : Expr)
  | node (n : Node)
  | text (s : String)

/-- A text being written. -/
structure Draft where
  stack : List Fragment
  out : String

namespace Draft

/-- Takes the top of the stack, if there is one, and writes it. Of a tree with operands only the
beginning is written, and the rest goes on the stack. -/
def turn (d : Draft) : Draft :=
  match d.stack with
  | [] => d
  | .node n :: stack => ⟨stack, d.out ++ n.text⟩
  | .text s :: stack => ⟨stack, d.out ++ s⟩
  | .tree e :: stack =>
    match e.left?, e.right? with
    | some l, some r =>
      ⟨.tree l :: .text " " :: .node e.root :: .text " " :: .tree r :: .text ")" :: stack,
        d.out ++ "("⟩
    | some a, none => ⟨.tree a :: .text ")" :: stack, d.out ++ e.root.text ++ "("⟩
    | none, _ => ⟨stack, d.out ++ e.root.text⟩

end Draft

/-- The number of turns that writing the tree takes. -/
def turns : Expr → Nat
  | const _ | var _ => 1
  | call _ a => a.turns + 2
  | binary _ l r => l.turns + r.turns + 5

namespace Draft

theorem iterate_turn (e : Expr) (stack : List Fragment) (out : String) :
    turn^[e.turns] ⟨.tree e :: stack, out⟩ = ⟨stack, out ++ e.text⟩ := by
  induction e generalizing stack out with
  | const x => rfl
  | var name => rfl
  | call f a ih =>
    calc turn^[a.turns + 2] ⟨.tree (.call f a) :: stack, out⟩
      _ = turn^[1 + a.turns] ⟨.tree a :: .text ")" :: stack, out ++ f.name ++ "("⟩ := by
        rw [Nat.add_comm 1]
        rfl
      _ = turn ⟨.text ")" :: stack, out ++ f.name ++ "(" ++ a.text⟩ := by
        rw [Function.iterate_add_apply, ih]
        rfl
      _ = ⟨stack, out ++ (call f a).text⟩ := by
        simp only [turn, text, String.append_assoc]
  | binary o l r ihl ihr =>
    calc turn^[l.turns + r.turns + 5] ⟨.tree (.binary o l r) :: stack, out⟩
      _ = turn^[1 + (r.turns + (3 + l.turns))]
          ⟨.tree l :: .text " " :: .node (.operator o) :: .text " " :: .tree r :: .text ")" :: stack,
            out ++ "("⟩ := by
        rw [show l.turns + r.turns + 5 = 1 + (r.turns + (3 + l.turns)) + 1 by omega]
        rfl
      _ = turn^[1 + r.turns] ⟨.tree r :: .text ")" :: stack,
            out ++ "(" ++ l.text ++ " " ++ o.symbol.toString ++ " "⟩ := by
        rw [← Nat.add_assoc, Function.iterate_add_apply, Function.iterate_add_apply turn 3, ihl]
        rfl
      _ = turn ⟨.text ")" :: stack,
            out ++ "(" ++ l.text ++ " " ++ o.symbol.toString ++ " " ++ r.text⟩ := by
        rw [Function.iterate_add_apply, ihr]
        rfl
      _ = ⟨stack, out ++ (binary o l r).text⟩ := by
        simp only [turn, text, String.append_assoc]

end Draft

/-- Both walks end: one with the names of the variables, each once and in the order in which they
first occur on the leaves, the other with the text. -/
theorem walks_agree (e : Expr) :
    Search.turn^[e.size] ⟨[e], ∅, []⟩ = ⟨[], e.leafNames.toFinset, e.variableNames⟩ ∧
    e.variableNames = e.leafNames.eraseDups ∧
    e.variableNames.Nodup ∧
    (∀ name, name ∈ e.variableNames ↔ name ∈ e.leafNames) ∧
    e.variableNames.Pairwise (fun m n => e.leafNames.idxOf m < e.leafNames.idxOf n) ∧
    Draft.turn^[e.turns] ⟨[.tree e], ""⟩ = ⟨[], e.text⟩ ∧
    e.render = e.text := by
  have hsearch := Search.iterate_turn e [] []
  have hdraft := Draft.iterate_turn e [] ""
  rw [String.empty_append] at hdraft
  refine ⟨?_, variableNames_eq e, ?_, fun _ => mem_variableNames, ?_, hdraft, render_eq_text e⟩
  · rw [variableNames_eq]
    exact hsearch
  · rw [variableNames_eq]
    exact nodup_eraseDups e.leafNames
  · rw [variableNames_eq]
    exact pairwise_idxOf_eraseDups e.leafNames

end Reckon.Expr
