import Reckon.Evaluator
import Reckon.Proofs.Evaluation
import Reckon.Proofs.Values

/-!
Evaluation works row by row: the elements of a column that a tree has for its value are the values
of the tree at the rows of the bindings.
-/
namespace Reckon

variable {ε : Float} {bindings row : Bindings} {e : Expr} {n i : Nat}

/-- The numbers in row `i` of those bindings that have one there. -/
def Bindings.rowAt (bindings : Bindings) (i : Nat) : Bindings :=
  bindings.filterMap fun (name, v) => (v.entry i).map fun x => (name, .scalar x)

theorem Bindings.lookup_rowAt {bindings : Bindings} {name : String} {u : Value} {x : Float}
    (hu : bindings.lookup name = some u) (hx : u.entry i = some x) :
    (bindings.rowAt i).lookup name = some (.scalar x) := by
  induction bindings with
  | nil => simp at hu
  | cons b bindings ih =>
    obtain ⟨m, w⟩ := b
    by_cases hm : name = m
    · subst hm
      obtain rfl : w = u := by simpa using hu
      simp [rowAt, hx]
    · have hm : (name == m) = false := beq_false_of_ne hm
      have hrest : bindings.lookup name = some u := by simpa [List.lookup_cons, hm] using hu
      cases hw : w.entry i with
      | none => simpa [rowAt, hw] using ih hrest
      | some y => simpa [rowAt, hw, List.lookup_cons, hm] using ih hrest

/-- In `row`, each variable of the tree has the number that it has in row `i` of the bindings. -/
def IsRow (e : Expr) (bindings : Bindings) (i : Nat) (row : Bindings) : Prop :=
  ∀ name ∈ e.variableNames,
    row.lookup name = ((bindings.lookup name).bind (Value.entry i)).map .scalar

/-- Every variable of the tree has a value that stretches to a column of `n`. -/
def Expr.Aligned (n : Nat) (bindings : Bindings) (e : Expr) : Prop :=
  ∀ name ∈ e.variableNames, ∃ u, bindings.lookup name = some u ∧ u.Fits n

namespace Expr

theorem isRow_call {f : Func} {a : Expr} :
    IsRow (call f a) bindings i row ↔ IsRow a bindings i row := by
  simp [IsRow, mem_variableNames, leafNames]

theorem isRow_binary {o : Operator} {l r : Expr} :
    IsRow (binary o l r) bindings i row ↔ IsRow l bindings i row ∧ IsRow r bindings i row := by
  simp [IsRow, mem_variableNames, leafNames, or_imp, forall_and]

theorem aligned_call {f : Func} {a : Expr} :
    (call f a).Aligned n bindings ↔ a.Aligned n bindings := by
  simp [Aligned, mem_variableNames, leafNames]

theorem aligned_binary {o : Operator} {l r : Expr} :
    (binary o l r).Aligned n bindings ↔ l.Aligned n bindings ∧ r.Aligned n bindings := by
  simp [Aligned, mem_variableNames, leafNames, or_imp, forall_and]

/-- A value that stretches to a column of `n` comes of variables whose values do. -/
theorem aligned_of_eval {v : Value} (h : e.eval ε bindings = .ok v) (hv : v.Fits n) :
    e.Aligned n bindings := by
  induction e generalizing v with
  | const x => simp [Aligned, mem_variableNames, leafNames]
  | var name =>
    cases hb : bindings.lookup name with
    | none => simp [eval, hb] at h
    | some u =>
      simp only [eval, hb, Option.elim_some, Except.ok.injEq] at h
      subst h
      simpa [Aligned, mem_variableNames, leafNames, hb] using hv
  | call f a ih =>
    obtain ⟨w, ha, hw⟩ := bind_eq_ok.mp h
    cases hw
    exact aligned_call.mpr (ih ha (Value.fits_map.mp hv))
  | binary o l r ihl ihr =>
    obtain ⟨u, hl, h⟩ := bind_eq_ok.mp h
    obtain ⟨w, hr, h⟩ := bind_eq_ok.mp h
    obtain ⟨hu, hw⟩ := Value.fits_of_zipWith h hv
    exact aligned_binary.mpr ⟨ihl hl hu, ihr hr hw⟩

/-- The value in a row is the value of the tree at that row. -/
theorem eval_row {v : Value} (h : e.eval ε bindings = .ok v) (hv : v.Fits n) (hi : i < n)
    (hrow : IsRow e bindings i row) :
    ∃ x, v.entry i = some x ∧ e.eval ε row = .ok (.scalar x) := by
  induction e generalizing v with
  | const x =>
    cases h
    exact ⟨x, rfl, rfl⟩
  | var name =>
    cases hb : bindings.lookup name with
    | none => simp [eval, hb] at h
    | some u =>
      simp only [eval, hb, Option.elim_some, Except.ok.injEq] at h
      subst h
      obtain ⟨x, hx⟩ := Value.exists_entry hv hi
      have hlookup := hrow name (by simp [mem_variableNames, leafNames])
      refine ⟨x, hx, ?_⟩
      simp [eval, hlookup, hb, hx]
  | call f a ih =>
    obtain ⟨w, ha, hw⟩ := bind_eq_ok.mp h
    cases hw
    obtain ⟨x, hx, hax⟩ := ih ha (Value.fits_map.mp hv) (isRow_call.mp hrow)
    refine ⟨f.eval x, ?_, ?_⟩
    · rw [Func.apply, Value.entry_map, hx, Option.map_some]
    · simp [eval, hax, Func.apply, Value.map]
  | binary o l r ihl ihr =>
    obtain ⟨u, hl, h⟩ := bind_eq_ok.mp h
    obtain ⟨w, hr, h⟩ := bind_eq_ok.mp h
    obtain ⟨hu, hw⟩ := Value.fits_of_zipWith h hv
    obtain ⟨hrowl, hrowr⟩ := isRow_binary.mp hrow
    obtain ⟨x, hx, hlx⟩ := ihl hl hu hrowl
    obtain ⟨y, hy, hry⟩ := ihr hr hw hrowr
    refine ⟨o.eval ε x y, Value.entry_zipWith h hx hy, ?_⟩
    simp [eval, hlx, hry, Operator.apply, Value.zipWith]

theorem isRow_rowAt (h : e.Aligned n bindings) (hi : i < n) :
    IsRow e bindings i (bindings.rowAt i) := by
  intro name hname
  obtain ⟨u, hu, hfits⟩ := h name hname
  obtain ⟨x, hx⟩ := Value.exists_entry hfits hi
  rw [Bindings.lookup_rowAt hu hx, hu, Option.bind_some, hx, Option.map_some]

/-- A tree whose value is a column has variables that stretch to it. Its elements are the values of
the tree at the rows of the bindings, one by one and as a batch. -/
theorem evaluate_rows {v : List Float} (h : e.evaluate ε bindings = .ok (.array v)) :
    e.Aligned v.length bindings ∧
    (∀ i (_ : i < v.length), IsRow e bindings i (bindings.rowAt i)) ∧
    (∀ i (_ : i < v.length) row, IsRow e bindings i row →
      e.evaluate ε row = .ok (.scalar v[i])) ∧
    ∀ (ev : Evaluator) (rows : List Bindings), ev.epsilon = ε → rows.length = v.length →
      (∀ i (_ : i < rows.length), IsRow e bindings i rows[i]) →
      ev.evaluateBatch e rows = v.map fun x => .ok (.scalar x) := by
  rw [evaluate_eq_eval] at h
  have hfits : (Value.array v).Fits v.length := .inr rfl
  have haligned := aligned_of_eval h hfits
  have hat : ∀ i (_ : i < v.length) row, IsRow e bindings i row →
      e.evaluate ε row = .ok (.scalar v[i]) := by
    intro i hi row hrow
    obtain ⟨x, hx, hvalue⟩ := eval_row h hfits hi hrow
    obtain rfl : v[i] = x := by
      rw [Value.entry_column hi] at hx
      exact Option.some.inj hx
    rw [evaluate_eq_eval, hvalue]
  refine ⟨haligned, ?_, hat, ?_⟩
  · intro i hi
    exact isRow_rowAt haligned hi
  · intro ev rows hε hlen hrows
    subst hε
    apply List.ext_getElem
    · simp [Evaluator.evaluateBatch, hlen]
    · intro i hi _
      have hi : i < rows.length := by simpa [Evaluator.evaluateBatch] using hi
      simpa [Evaluator.evaluateBatch, Evaluator.evaluate] using hat i (hlen ▸ hi) _ (hrows i hi)

/-- A column, a column of one, and a number. -/
theorem evaluate_rows_mixed :
    let e : Expr := .binary .div (.var "x") (.binary .add (.var "y") (.var "z"))
    let bindings : Bindings := [("x", .array [10, 20]), ("y", .array [3]), ("z", .scalar 2)]
    e.evaluate 1e-10 bindings = .ok (.array [2, 4]) ∧
      e.evaluate 1e-10 [("z", .scalar 2), ("y", .scalar 3), ("x", .scalar 20)] =
        .ok (.scalar 4) := by
  intro e bindings
  have h : e.evaluate 1e-10 bindings = .ok (.array [2, 4]) := by
    rw [evaluate_eq_eval]
    decide +kernel
  have hrow : IsRow e bindings 1 [("z", .scalar 2), ("y", .scalar 3), ("x", .scalar 20)] := by
    intro name hname
    have hmem : name = "x" ∨ name = "y" ∨ name = "z" := by
      simpa [e, mem_variableNames, leafNames] using hname
    rcases hmem with rfl | rfl | rfl <;> decide +kernel
  exact ⟨h, (evaluate_rows h).2.2.1 1 (by decide) _ hrow⟩

end Expr

end Reckon
