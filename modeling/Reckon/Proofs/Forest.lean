import Mathlib.Tactic.Common
import Reckon.Expr.Walk
import Reckon.Forest
import Reckon.Proofs.Outcome

/-! Building reads its tokens as the postorder listing of one tree, and accepts nothing else. -/
namespace Reckon

namespace Forest

variable {trees trees' : Forest} {nodes : List Node} {n : Node} {e : Expr}

/-- The nodes of all trees, each tree in postorder and the earliest tree first. -/
def listing (trees : Forest) : List Node :=
  trees.reverse.flatMap Expr.postorder

@[simp] theorem listing_nil : listing [] = [] := rfl

@[simp] theorem listing_cons (e : Expr) (trees : Forest) :
    listing (e :: trees) = listing trees ++ e.postorder := by
  simp [listing]

/-- Growing adds its node at the end of the listing, whatever it does to the trees. -/
theorem listing_grow (h : grow trees n = .ok trees') : listing trees' = listing trees ++ [n] := by
  fun_cases grow trees n <;> simp_all [grow] <;> subst h <;> simp [Expr.postorder]

theorem listing_foldlM_grow (h : nodes.foldlM grow trees = .ok trees') :
    listing trees' = listing trees ++ nodes := by
  induction nodes generalizing trees with
  | nil => cases h; simp
  | cons n nodes ih =>
    obtain ⟨grown, hg, hn⟩ := bind_eq_ok.mp h
    rw [ih hn, listing_grow hg, List.append_assoc, List.singleton_append]

/-- The postorder listing of a tree grows that tree, on top of any others. -/
theorem foldlM_grow_postorder (e : Expr) (trees : Forest) :
    e.postorder.foldlM grow trees = .ok (e :: trees) := by
  induction e generalizing trees with
  | const x => rfl
  | var name => rfl
  | call f a ih =>
    simp only [Expr.postorder, List.foldlM_append, ih, ok_bind]
    rfl
  | binary o l r ihl ihr =>
    simp only [Expr.postorder, List.foldlM_append, ihl, ihr, ok_bind]
    rfl

theorem single_eq_ok : single trees = .ok e ↔ trees = [e] := by
  fun_cases single trees <;> simp_all

end Forest

namespace Grammar

variable {g : Grammar} {tokens : List Token} {trees trees' : Forest}

theorem foldlM_grow_node :
    tokens.foldlM (fun trees t => do Forest.grow trees (← g.node t)) trees = .ok trees' ↔
      ∃ nodes, tokens.mapM g.node = .ok nodes ∧ nodes.foldlM Forest.grow trees = .ok trees' := by
  induction tokens generalizing trees with
  | nil => simp [pure_eq_ok]
  | cons t tokens ih =>
    simp only [List.foldlM_cons, List.mapM_cons, bind_eq_ok, pure_eq_ok, ih]
    constructor
    · rintro ⟨grown, ⟨n, hn, hg⟩, nodes, hm, hf⟩
      exact ⟨n :: nodes, ⟨n, hn, nodes, hm, rfl⟩, bind_eq_ok.mpr ⟨grown, hg, hf⟩⟩
    · rintro ⟨_, ⟨n, hn, nodes, hm, rfl⟩, hf⟩
      obtain ⟨grown, hg, hf⟩ := bind_eq_ok.mp hf
      exact ⟨grown, ⟨n, hn, hg⟩, nodes, hm, hf⟩

theorem build_eq_ok_iff {e : Expr} :
    g.build tokens = .ok e ↔ tokens.mapM g.node = .ok e.postorder := by
  simp only [build, bind_eq_ok, foldlM_grow_node, Forest.single_eq_ok]
  constructor
  · rintro ⟨_, ⟨nodes, hm, hf⟩, rfl⟩
    have hl := Forest.listing_foldlM_grow hf
    simp only [Forest.listing_cons, Forest.listing_nil, List.nil_append] at hl
    rw [hm, hl]
  · intro hm
    exact ⟨_, ⟨_, hm, Forest.foldlM_grow_postorder e []⟩, rfl⟩

end Grammar

end Reckon
