import Reckon.Arithmetic
import Reckon.Expr.Placed
import Std.Data.HashMap

/-!
The value of a tree. `evaluate` works off a stack of nodes and remembers the values found so far by
the addresses of their nodes, so that a tree may be of any depth; `eval` is the same by recursion.
-/
namespace Reckon

variable (ε : Float) (bindings : Bindings)

/-- Operands come before what is applied to them, and left ones before right ones. -/
def Expr.eval : Expr → Except Error Value
  | const x => .ok (.scalar x)
  | var name => (bindings.lookup name).elim (.error (.unboundVariable name)) .ok
  | call f a => do return f.apply (← a.eval)
  | binary o l r => do
    let v ← l.eval
    let w ← r.eval
    o.apply ε v w

/-- The values found so far, by address. -/
abbrev Memo := Std.HashMap Nat Value

namespace Placed

/-- The value of a node, if its operands have values. -/
def value? (memo : Memo) : Placed → Except Error (Option Value)
  | const _ x => .ok (some (.scalar x))
  | var _ name => (bindings.lookup name).elim (.error (.unboundVariable name)) (.ok ∘ some)
  | call _ f t => .ok (memo[t.address]?.map f.apply)
  | binary _ o l r =>
    match memo[l.address]?, memo[r.address]? with
    | some v, some w => (o.apply ε v w).map some
    | _, _ => .ok none

theorem isSome_value? {memo : Memo} {t : Placed} {v : Option Value}
    (h : value? ε bindings memo t = .ok v) :
    v.isSome ↔ ∀ s ∈ t.operands, memo.contains s.address := by
  cases t with
  | const a x =>
    cases h
    simp [operands]
  | var a name =>
    cases hb : bindings.lookup name <;> simp [value?, hb] at h
    simp [operands, ← h]
  | call a f t =>
    cases h
    simp [operands]
  | binary a o l r =>
    simp only [operands, List.forall_mem_cons, ← Std.HashMap.isSome_getElem?_eq_contains]
    simp only [value?] at h
    split at h
    · rename_i hl hr
      cases ha : o.apply ε _ _ <;> rw [ha] at h <;> cases h
      simp [hl, hr]
    · rename_i hn
      cases h
      cases hl : memo[l.address]? <;> cases hr : memo[r.address]? <;> simp
      exact hn _ _ hl hr

/-- Works off the stack. A node whose operands have no values yet waits below them. -/
def run (memo : Memo) (stack : List Placed) : Except Error Memo :=
  match stack with
  | [] => .ok memo
  | t :: stack =>
    if memo.contains t.address then run memo stack
    else match _h : value? ε bindings memo t with
      | .ok (some v) => run (memo.insert t.address v) stack
      | .ok none => run memo (t.operands ++ t :: stack)
      | .error e => .error e
termination_by allTurns memo.contains stack
decreasing_by
  · rename_i hk
    simp [allTurns, turns_of_known hk, learn_of_known hk]
  · have hready := (isSome_value? ε bindings _h).mp rfl
    have hlearn : (memo.insert t.address v).contains = learn memo.contains t := by
      funext b
      simp [learn_of_ready hready, Std.HashMap.contains_insert]
    simp [allTurns, turns_of_ready hready, hlearn]
  · rename_i hk
    exact allTurns_operands hk (mt (isSome_value? ε bindings _h).mpr (by simp)) stack

def evaluate (t : Placed) : Except Error Value := do
  let memo ← run ε bindings ∅ [t]
  match memo[t.address]? with
  | some v => return v
  | none => throw (.unknownNode t.expr.root.text)

end Placed

def Expr.evaluate (e : Expr) : Except Error Value :=
  match e.placed with
  | some t => t.evaluate ε bindings
  | none => .error (.unknownNode e.root.text)

end Reckon
