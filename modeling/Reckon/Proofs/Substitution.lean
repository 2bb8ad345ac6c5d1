import Mathlib.Logic.Function.Basic
import Reckon.Proofs.Evaluation
import Reckon.Proofs.Walk

/-!
Trees in place of variables: a tree counts for its value wherever it is put, and for nothing else.
-/
namespace Reckon.Expr

variable {ε : Float} {bindings bindings' : Bindings} {σ : String → Expr} {e s : Expr} {v : Value}

/-- The tree with a tree for each of its variables. -/
def subst (σ : String → Expr) : Expr → Expr
  | const x => const x
  | var name => σ name
  | call f a => call f (a.subst σ)
  | binary o l r => binary o (l.subst σ) (r.subst σ)

/-- The tree with `s` for the variable `x`. -/
def replace (e : Expr) (x : String) (s : Expr) : Expr :=
  e.subst (Function.update var x s)

@[simp] theorem subst_var (e : Expr) : e.subst var = e := by
  induction e <;> simp_all [subst]

/-- Trees for its variables do what bindings of the variables to their values do. -/
theorem eval_subst (h : ∀ name ∈ e.leafNames,
      (σ name).eval ε bindings = (var name).eval ε bindings') :
    (e.subst σ).eval ε bindings = e.eval ε bindings' := by
  induction e with
  | const x => rfl
  | var name => exact h name (List.mem_singleton.mpr rfl)
  | call f a ih => simp only [subst, eval, ih h]
  | binary o l r ihl ihr =>
    have hl := ihl fun name hname => h name (List.mem_append_left _ hname)
    have hr := ihr fun name hname => h name (List.mem_append_right _ hname)
    simp only [subst, eval, hl, hr]

theorem eval_congr (h : ∀ name ∈ e.leafNames, bindings.lookup name = bindings'.lookup name) :
    e.eval ε bindings = e.eval ε bindings' := by
  have hvar : ∀ name ∈ e.leafNames,
      (var name).eval ε bindings = (var name).eval ε bindings' := by
    intro name hname
    rw [eval, eval, h name hname]
  simpa using eval_subst hvar

theorem eval_replace (e : Expr) (x : String) (h : s.eval ε bindings = .ok v) :
    (e.replace x s).eval ε bindings = e.eval ε ((x, v) :: bindings) := by
  refine eval_subst fun name _ => ?_
  by_cases hname : name = x
  · subst hname
    simp [eval, h]
  · have hskip : (name == x) = false := beq_false_of_ne hname
    simp [eval, hname, List.lookup_cons, hskip]

/-- A tree that has a value may be put in for a variable, as often as that occurs, instead of
binding the variable to the value. What comes of it is the same, an error too, and the copies may be
placed anywhere. -/
theorem evaluate_replace (e : Expr) (x : String) (h : s.evaluate ε bindings = .ok v) :
    (e.replace x s).evaluate ε bindings = e.evaluate ε ((x, v) :: bindings) ∧
    ∀ t : Placed, t.addresses.Nodup → t.expr = e.replace x s →
      t.evaluate ε bindings = e.evaluate ε ((x, v) :: bindings) := by
  rw [evaluate_eq_eval] at h
  rw [evaluate_eq_eval, evaluate_eq_eval, ← eval_replace e x h]
  refine ⟨rfl, ?_⟩
  intro t hd ht
  rw [Placed.evaluate_eq_eval hd, ht]

/-- A column in two places, from a tree that reads the variable itself, and a column that does not
go with it. -/
theorem evaluate_replace_column :
    let s : Expr := .binary .add (.var "x") (.var "z")
    let e : Expr := .binary .sub (.var "x") (.binary .div (.var "x") (.var "z"))
    let e' : Expr := .binary .mul (.var "x") (.var "y")
    let bindings : Bindings := [("x", .scalar 1), ("y", .array []), ("z", .array [1, 2])]
    s.evaluate 1e-10 bindings = .ok (.array [2, 3]) ∧
      (e.replace "x" s).evaluate 1e-10 bindings = .ok (.array [0, 1.5]) ∧
      (e'.replace "x" s).evaluate 1e-10 bindings = .error (.shapeMismatch 2 0) := by
  intro s e e' bindings
  have h : s.evaluate 1e-10 bindings = .ok (.array [2, 3]) := by
    rw [evaluate_eq_eval]
    decide +kernel
  refine ⟨h, ?_, ?_⟩
  · rw [(evaluate_replace e "x" h).1, evaluate_eq_eval]
    decide +kernel
  · rw [(evaluate_replace e' "x" h).1, evaluate_eq_eval]
    decide +kernel

end Reckon.Expr
