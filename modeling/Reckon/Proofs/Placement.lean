import Mathlib.Data.List.Nodup
import Reckon.Expr.Placed
import Reckon.Proofs.Walk

/-! Placing a tree gives each of its nodes an address of its own. -/
namespace Reckon

namespace Expr

/-- The tree with its nodes numbered from `n` on, those to the right first and the root last. -/
def placedAt (n : Nat) : Expr → Placed
  | const x => .const n x
  | var name => .var n name
  | call f e => .call (n + e.size) f (e.placedAt n)
  | binary o l r => .binary (n + r.size + l.size) o (l.placedAt (n + r.size)) (r.placedAt n)

theorem plantAll_preorder (e : Expr) (n : Nat) (trees : List Placed) (nodes : List Node) :
    Placed.plantAll n trees (e.preorder.reverse ++ nodes) =
      Placed.plantAll (n + e.size) (e.placedAt n :: trees) nodes := by
  induction e generalizing n trees nodes with
  | const | var => rfl
  | call f e ih => simp [preorder, ih, Placed.plantAll, Placed.plant, placedAt, size, Nat.add_assoc]
  | binary o l r ihl ihr =>
    have hsize : n + r.size + l.size + 1 = n + (l.size + r.size + 1) := by omega
    simp [preorder, ihl, ihr, Placed.plantAll, Placed.plant, placedAt, size, hsize]

theorem placed_eq (e : Expr) : e.placed = some (e.placedAt 0) := by
  have h := plantAll_preorder e 0 [] []
  rw [List.append_nil] at h
  rw [placed, nodes_eq_preorder, h]
  rfl

theorem expr_placedAt (e : Expr) (n : Nat) : (e.placedAt n).expr = e := by
  induction e generalizing n <;> simp_all [placedAt, Placed.expr]

theorem addresses_placedAt (e : Expr) (n : Nat) :
    ∀ a ∈ (e.placedAt n).addresses, n ≤ a ∧ a < n + e.size := by
  induction e generalizing n with
  | const | var => simp [placedAt, Placed.addresses, size]
  | call f e ih =>
    intro a ha
    rcases List.mem_cons.mp ha with rfl | ha
    · simp [size]
    · have := ih n a ha
      simp only [size]
      omega
  | binary o l r ihl ihr =>
    intro a ha
    rcases List.mem_cons.mp ha with rfl | ha
    · simp only [size]
      omega
    · rcases List.mem_append.mp ha with ha | ha
      · have := ihl (n + r.size) a ha
        simp only [size]
        omega
      · have := ihr n a ha
        simp only [size]
        omega

theorem nodup_placedAt (e : Expr) (n : Nat) : (e.placedAt n).addresses.Nodup := by
  induction e generalizing n with
  | const | var => simp [placedAt, Placed.addresses]
  | call f e ih =>
    refine List.nodup_cons.mpr ⟨?_, ih n⟩
    intro h
    have := addresses_placedAt e n _ h
    omega
  | binary o l r ihl ihr =>
    have hl := addresses_placedAt l (n + r.size)
    have hr := addresses_placedAt r n
    refine List.nodup_cons.mpr ⟨?_, List.nodup_append.mpr ⟨ihl _, ihr n, ?_⟩⟩
    · intro h
      rcases List.mem_append.mp h with h | h
      · have := hl _ h
        omega
      · have := hr _ h
        omega
    · rintro a ha b hb rfl
      have := hl a ha
      have := hr a hb
      omega

end Expr

end Reckon
